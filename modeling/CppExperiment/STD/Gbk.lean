/-
  GBK texts in CommonTools/STD.cc: `STD::StrncpyGBK` and
  `STD::DeleteCtrlCharFromGBK`.

  A byte from 0x80 on stands in one character with the byte behind it
  (`gbkWidth`); the last byte of a text may be the first half of a character.

  * `strncpyGBKLoop_put`: the loop of `StrncpyGBK` copies the characters that
    fit, one by one.
  * `strncpyGBK_iff`: the way round the loop, for a large buffer, copies the
    half of a character, too.
  * `deleteCtrlChar`: `DeleteCtrlCharFromGBK` works in place, and what it
    writes never reaches what is still to be read.
-/
import CppExperiment.Lib.Memory
import CppExperiment.Lib.Words

namespace CppExperiment.STD

/-- The loop of `StrncpyGBK` and what follows it.  Both pointers and `ret` move
    together: they are at `i`. -/
def strncpyGBKLoop (pDst pSrc : ℕ) :
    (fuel : ℕ) → Mem → (i : ℕ) → (nDstLen nSrcLen : ℤ) → Option (Mem × ℕ)
  | 0, _, _, _, _ => none
  | fuel + 1, m, i, nDstLen, nSrcLen =>
    if nDstLen > 0 ∧ nSrcLen > 0 then do
      let c ← m.load pSrc i
      if c &&& 0x80 ≠ 0 then
        if nDstLen ≤ 1 ∨ nSrcLen ≤ 1 then
          let m ← m.store pDst i 0
          some (m, i)
        else
          let m ← m.store pDst i c
          let c ← m.load pSrc (i + 1)
          let m ← m.store pDst (i + 1) c
          strncpyGBKLoop pDst pSrc fuel m (i + 2) (nDstLen - 1 - 1) (nSrcLen - 1 - 1)
      else
        let m ← m.store pDst i c
        strncpyGBKLoop pDst pSrc fuel m (i + 1) (nDstLen - 1) (nSrcLen - 1)
    else do
      let m ← m.store pDst i 0
      some (m, i)

/-- `StrncpyGBK(pDst, nDstLen, pSrc, nSrcLen)`: the memory and what is
    returned.  A negative length is a huge one for `strncpy`. -/
def strncpyGBK (m : Mem) (pDst : ℕ) (nDstLen : ℤ) (pSrc : ℕ) (nSrcLen : ℤ) : Option (Mem × ℕ) :=
  if nSrcLen < nDstLen then
    if nSrcLen < 0 then none
    else do
      let m ← Mem.strncpy pDst pSrc nSrcLen.toNat m 0
      let m ← m.store pDst nSrcLen.toNat 0
      some (m, nSrcLen.toNat)
  else strncpyGBKLoop pDst pSrc (nSrcLen.toNat + 1) m 0 (nDstLen - 1) nSrcLen

/-- The loop of `DeleteCtrlCharFromGBK` and what follows it. -/
def deleteCtrlCharLoop (gbk : ℕ) (ch : UInt8) :
    (fuel : ℕ) → Mem → (target source : ℕ) → Option Mem
  | 0, _, _, _ => none
  | fuel + 1, m, target, source => do
    let c ← m.load gbk source
    if c = 0 then m.store gbk target 0
    else if c &&& 0x80 ≠ 0 then
      let m ← m.store gbk target c
      let c ← m.load gbk (source + 1)
      if c = 0 then m.store gbk (target + 1) 0
      else
        let m ← m.store gbk (target + 1) c
        deleteCtrlCharLoop gbk ch fuel m (target + 2) (source + 2)
    else if c = ch then deleteCtrlCharLoop gbk ch fuel m target (source + 1)
    else
      let m ← m.store gbk target c
      deleteCtrlCharLoop gbk ch fuel m (target + 1) (source + 1)

/-- `DeleteCtrlCharFromGBK(gbk, ch)`; `none` is the null pointer. -/
def deleteCtrlCharFromGBK (m : Mem) (gbk : Option ℕ) (ch : UInt8) : Option Mem :=
  match gbk with
  | none => some m
  | some gbk => deleteCtrlCharLoop gbk ch (m gbk).length m 0 0

/-! ## The characters -/

/-- The number of bytes of the character that starts with `c`. -/
def gbkWidth (c : UInt8) : ℕ := if c < 0x80 then 1 else 2

/-- A text of whole characters. -/
def GbkText (s : List UInt8) : Prop := ∃ ws, Words gbkWidth ws ∧ s = ws.flatten

/-- The whole characters at the start of `s`, as many as fit into `n` bytes. -/
def LongestStart (s : List UInt8) (n : ℤ) (t : List UInt8) : Prop :=
  (GbkText t ∧ t <+: s ∧ t.length ≤ n) ∧
    ∀ t', GbkText t' → t' <+: s → t'.length ≤ n → t' <+: t

variable {m : Mem} {pDst pSrc gbk fuel n i target source : ℕ} {nDstLen nSrcLen : ℤ}
  {p s t w tail : List UInt8} {ws : List (List UInt8)} {b c d ch : UInt8}

theorem gbkWidth_pos (c : UInt8) : 0 < gbkWidth c := by
  unfold gbkWidth
  split_ifs <;> decide

theorem highBit_iff (c : UInt8) : c &&& 0x80 ≠ 0 ↔ ¬ c < 0x80 := by
  obtain ⟨⟨c⟩⟩ := c
  revert c
  decide +kernel

/-- A character is a byte below 0x80, or two bytes. -/
theorem gbkWord_cases (h : IsWord gbkWidth w) :
    (∃ c, c < 0x80 ∧ w = [c]) ∨ ∃ c d, ¬ c < 0x80 ∧ w = [c, d] := by
  obtain ⟨c, t, rfl, hsize⟩ := h.exists_cons
  rw [gbkWidth, List.length_cons] at hsize
  split_ifs at hsize with hc
  · obtain rfl := List.eq_nil_of_length_eq_zero (Nat.succ.inj hsize)
    exact .inl ⟨c, hc, rfl⟩
  · obtain ⟨d, rfl⟩ := List.length_eq_one_iff.1 (Nat.succ.inj hsize)
    exact .inr ⟨c, d, hc, rfl⟩

/-- The half of a character at the end of a text. -/
theorem gbkCut_cases (h : tail = [] ∨ CutShort gbkWidth tail) :
    tail = [] ∨ ∃ c, ¬ c < 0x80 ∧ tail = [c] := by
  rcases h with h | h
  · exact .inl h
  · cases tail with
    | nil => exact h.elim
    | cons c t =>
      rw [CutShort, gbkWidth] at h
      split_ifs at h with hc
      · omega
      · obtain rfl := List.eq_nil_of_length_eq_zero (by omega : t.length = 0)
        exact .inr ⟨c, hc, rfl⟩

/-- The characters that fit are the longest start. -/
theorem longestStart_fit (hws : Words gbkWidth ws) (htail : tail = [] ∨ CutShort gbkWidth tail) :
    LongestStart (ws.flatten ++ tail) n (fit List.length n ws).flatten := by
  have hroom := room_fit_le List.length n ws
  rw [← length_flatten] at hroom
  obtain ⟨ws', hws'⟩ := fit_isPrefix List.length n ws
  refine ⟨⟨⟨_, ?_, rfl⟩, ?_, by omega⟩, ?_⟩
  · rw [← hws'] at hws
    exact (words_append.1 hws).1
  · conv_rhs => rw [← hws', List.flatten_append, List.append_assoc]
    exact List.prefix_append _ _
  · rintro t' ⟨vs, hvs, rfl⟩ hstart hle
    rw [length_flatten] at hle
    obtain ⟨vs', hvs'⟩ :=
      prefix_fit (hvs.prefix_of_flatten_prefix hws htail hstart) (Int.ofNat_le.1 hle)
    rw [← hvs', List.flatten_append]
    exact List.prefix_append _ _

/-! ## `StrncpyGBK` -/

/-- The loop ends: a NUL behind what is copied. -/
theorem strncpyGBKLoop_stop (hi : i = p.length) (hsz : i < (m pDst).length)
    (h : ¬ (nDstLen > 0 ∧ nSrcLen > 0)) :
    strncpyGBKLoop pDst pSrc (fuel + 1) (m.put pDst p) i nDstLen nSrcLen =
      some (m.put pDst (p ++ [0]), i) := by
  rw [strncpyGBKLoop, if_neg h, Mem.store_put hi hsz]
  rfl

/-- A byte below 0x80. -/
theorem strncpyGBKLoop_single (hne : pSrc ≠ pDst) (hc : c < 0x80) (hat : m.At pSrc i (c :: s))
    (hi : i = p.length) (hsz : i < (m pDst).length) (hdst : 0 < nDstLen) (hsrc : 0 < nSrcLen) :
    strncpyGBKLoop pDst pSrc (fuel + 1) (m.put pDst p) i nDstLen nSrcLen =
      strncpyGBKLoop pDst pSrc fuel (m.put pDst (p ++ [c])) (i + 1) (nDstLen - 1)
        (nSrcLen - 1) := by
  rw [strncpyGBKLoop, if_pos ⟨hdst, hsrc⟩, Mem.load_put_ne hne, hat.load, Option.bind_eq_bind,
    Option.bind_some, if_neg (mt (highBit_iff c).1 (not_not.2 hc)), Mem.store_put hi hsz]
  rfl

/-- A character of two bytes, of which one does not fit or is missing. -/
theorem strncpyGBKLoop_break (hne : pSrc ≠ pDst) (hc : ¬ c < 0x80) (hat : m.At pSrc i (c :: s))
    (hi : i = p.length) (hsz : i < (m pDst).length) (h : nDstLen ≤ 1 ∨ nSrcLen ≤ 1) :
    strncpyGBKLoop pDst pSrc (fuel + 1) (m.put pDst p) i nDstLen nSrcLen =
      some (m.put pDst (p ++ [0]), i) := by
  by_cases hgo : nDstLen > 0 ∧ nSrcLen > 0
  · rw [strncpyGBKLoop, if_pos hgo, Mem.load_put_ne hne, hat.load, Option.bind_eq_bind,
      Option.bind_some, if_pos ((highBit_iff c).2 hc), if_pos h, Mem.store_put hi hsz]
    rfl
  · exact strncpyGBKLoop_stop hi hsz hgo

/-- A character of two bytes. -/
theorem strncpyGBKLoop_double (hne : pSrc ≠ pDst) (hc : ¬ c < 0x80)
    (hat : m.At pSrc i (c :: d :: s)) (hi : i = p.length) (hsz : i + 1 < (m pDst).length)
    (hdst : 1 < nDstLen) (hsrc : 1 < nSrcLen) :
    strncpyGBKLoop pDst pSrc (fuel + 1) (m.put pDst p) i nDstLen nSrcLen =
      strncpyGBKLoop pDst pSrc fuel (m.put pDst (p ++ [c, d])) (i + 2) (nDstLen - 1 - 1)
        (nSrcLen - 1 - 1) := by
  rw [strncpyGBKLoop, if_pos ⟨by omega, by omega⟩, Mem.load_put_ne hne, hat.load,
    Option.bind_eq_bind, Option.bind_some, if_pos ((highBit_iff c).2 hc), if_neg (by omega),
    Mem.store_put hi (by omega), Option.bind_eq_bind, Option.bind_some, Mem.load_put_ne hne,
    hat.tail.load, Option.bind_some, Mem.store_put (by simp [hi]) hsz, List.append_assoc]
  rfl

/-- **The loop** from a character on, `p` what is copied before and `n` the bytes
    left in the buffer.  The induction is on the characters left. -/
theorem strncpyGBKLoop_put (hne : pSrc ≠ pDst) (hws : Words gbkWidth ws)
    (htail : tail = [] ∨ CutShort gbkWidth tail) (hat : m.At pSrc i (ws.flatten ++ tail))
    (hi : i = p.length) (hdst : nDstLen = n) (hsrc : nSrcLen = (ws.flatten ++ tail).length)
    (hsz : i + n < (m pDst).length) (hfuel : (ws.flatten ++ tail).length < fuel) :
    strncpyGBKLoop pDst pSrc fuel (m.put pDst p) i nDstLen nSrcLen =
      some (m.put pDst (p ++ (fit List.length n ws).flatten ++ [0]),
        (p ++ (fit List.length n ws).flatten).length) := by
  induction ws generalizing fuel i p n nDstLen nSrcLen with
  | nil =>
    obtain ⟨fuel, rfl⟩ := Nat.exists_eq_succ_of_ne_zero (Nat.ne_zero_of_lt hfuel)
    rw [List.flatten_nil, List.nil_append] at hat hsrc
    rw [fit, List.flatten_nil, List.append_nil, ← hi]
    rcases gbkCut_cases htail with rfl | ⟨c, hc, rfl⟩
    · rw [List.length_nil] at hsrc
      exact strncpyGBKLoop_stop hi (by omega) (by omega)
    · rw [List.length_singleton] at hsrc
      exact strncpyGBKLoop_break hne hc hat hi (by omega) (.inr (by omega))
  | cons w ws ih =>
    obtain ⟨fuel, rfl⟩ := Nat.exists_eq_succ_of_ne_zero (Nat.ne_zero_of_lt hfuel)
    obtain ⟨hw, hrest⟩ := words_cons.1 hws
    by_cases hfull : n < w.length
    · rw [fit_cons_of_lt hfull, List.flatten_nil, List.append_nil, ← hi]
      rcases gbkWord_cases hw with ⟨c, hc, rfl⟩ | ⟨c, d, hc, rfl⟩
      · rw [List.length_singleton] at hfull
        exact strncpyGBKLoop_stop hi (by omega) (by omega)
      · simp only [List.length_cons, List.length_nil] at hfull
        exact strncpyGBKLoop_break hne hc hat hi (by omega) (.inl (by omega))
    · rw [fit_cons_of_le (not_lt.1 hfull), List.flatten_cons, ← List.append_assoc]
      rw [List.flatten_cons, List.append_assoc] at hat hsrc hfuel
      rw [List.length_append] at hsrc hfuel
      have hnext := hat.drop
      rcases gbkWord_cases hw with ⟨c, hc, rfl⟩ | ⟨c, d, hc, rfl⟩
      · simp only [List.length_cons, List.length_nil] at hfull hsrc hfuel hnext ⊢
        rw [strncpyGBKLoop_single hne hc hat hi (by omega) (by omega) (by omega)]
        exact ih hrest hnext (by simp [hi]) (by omega) (by omega) (by omega) (by omega)
      · simp only [List.length_cons, List.length_nil] at hfull hsrc hfuel hnext ⊢
        rw [strncpyGBKLoop_double hne hc hat hi (by omega) (by omega) (by omega)]
        exact ih hrest hnext (by simp [hi]) (by omega) (by omega) (by omega) (by omega)

/-- A buffer that is not larger than the source: the characters that fit. -/
theorem strncpyGBK_fit (hne : pSrc ≠ pDst) (hws : Words gbkWidth ws)
    (htail : tail = [] ∨ CutShort gbkWidth tail) (hat : m.At pSrc 0 (ws.flatten ++ tail))
    (h1 : 1 ≤ nDstLen) (hlen : nDstLen ≤ (ws.flatten ++ tail).length)
    (hsz : nDstLen ≤ (m pDst).length) :
    strncpyGBK m pDst nDstLen pSrc (ws.flatten ++ tail).length =
      some (m.put pDst ((fit List.length (nDstLen - 1).toNat ws).flatten ++ [0]),
        (fit List.length (nDstLen - 1).toNat ws).flatten.length) := by
  have h := @strncpyGBKLoop_put m pDst pSrc ((ws.flatten ++ tail).length + 1)
    (nDstLen - 1).toNat 0 (nDstLen - 1) (ws.flatten ++ tail).length [] tail ws hne hws htail hat
    rfl (by omega) rfl (by omega) (Nat.lt_succ_self _)
  rw [Mem.put_nil] at h
  rw [strncpyGBK, if_neg (by omega), Int.toNat_natCast, h]
  rfl

/-- A buffer that is larger than the source: all bytes are copied. -/
theorem strncpyGBK_large (hne : pSrc ≠ pDst) (hat : m.At pSrc 0 s) (h0 : 0 ∉ s)
    (hlen : (s.length : ℤ) < nDstLen) (hsz : nDstLen ≤ (m pDst).length) :
    strncpyGBK m pDst nDstLen pSrc s.length = some (m.put pDst (s ++ [0]), s.length) := by
  have h := Mem.strncpy_put (p := []) hne hat h0 (by rw [List.nil_append]; omega)
  rw [Mem.put_nil, List.length_nil, List.nil_append] at h
  rw [strncpyGBK, if_pos hlen, if_neg (by omega), Int.toNat_natCast, h, Option.bind_eq_bind,
    Option.bind_some, Mem.store_put rfl (by omega)]
  rfl

/-- **When `StrncpyGBK` copies whole characters**: if it goes through the loop,
    or no half of a character stands at the end of the source. -/
theorem strncpyGBK_iff (hne : pSrc ≠ pDst) (hat : m.At pSrc 0 s) (h0 : 0 ∉ s) (h1 : 1 ≤ nDstLen)
    (hsz : nDstLen ≤ (m pDst).length) :
    (∃ t, LongestStart s (nDstLen - 1) t ∧
      strncpyGBK m pDst nDstLen pSrc s.length = some (m.put pDst (t ++ [0]), t.length)) ↔
      nDstLen ≤ s.length ∨ GbkText s := by
  obtain ⟨ws, tail, rfl, hws, htail⟩ := exists_words gbkWidth_pos s
  have hstart := longestStart_fit (n := (nDstLen - 1).toNat) hws htail
  rw [Int.toNat_of_nonneg (by omega)] at hstart
  by_cases hlen : nDstLen ≤ (ws.flatten ++ tail).length
  · exact iff_of_true ⟨_, hstart, strncpyGBK_fit hne hws htail hat h1 hlen hsz⟩ (.inl hlen)
  · rw [strncpyGBK_large hne hat h0 (not_le.1 hlen) hsz]
    constructor
    · rintro ⟨t, ht, heq⟩
      -- the source is copied as a whole
      have hsame := ht.1.2.1.eq_of_length (Prod.ext_iff.1 (Option.some_inj.1 heq)).2.symm
      exact .inr (hsame ▸ ht.1.1)
    · intro h
      have htext := h.resolve_left hlen
      exact ⟨_, ⟨⟨htext, List.prefix_rfl, by omega⟩, fun t' _ ht' _ => ht'⟩, rfl⟩

/-- A character of two bytes and a letter, in a buffer with room for two bytes. -/
theorem strncpyGBK_iff_pair : ∃ t, LongestStart [0xB0, 0xA1, 97] 2 t ∧
    strncpyGBK (fun b => [[0xB0, 0xA1, 97], [7, 7, 7]].getD b []) 1 3 0 3 =
      some (Mem.put (fun b => [[0xB0, 0xA1, 97], [7, 7, 7]].getD b []) 1 (t ++ [0]), t.length) :=
  (@strncpyGBK_iff (fun b => [[0xB0, 0xA1, 97], [7, 7, 7]].getD b []) 1 0 3 [0xB0, 0xA1, 97]
    (by decide) List.prefix_rfl (by decide) (by decide) (by decide)).2 (.inl (by decide))

/-- The half of a character in a buffer that is larger. -/
theorem strncpyGBK_half : ¬ ∃ t, LongestStart [0xB0] 1 t ∧
    strncpyGBK (fun b => [[0xB0], [7, 7]].getD b []) 1 2 0 1 =
      some (Mem.put (fun b => [[0xB0], [7, 7]].getD b []) 1 (t ++ [0]), t.length) := by
  rintro ⟨t, ⟨⟨⟨ws, hws, rfl⟩, hstart, -⟩, -⟩, heq⟩
  have hcopy := @strncpyGBK_large (fun b => [[0xB0], [7, 7]].getD b []) 1 0 2 [0xB0] (by decide)
    List.prefix_rfl (by decide) (by decide) (by decide)
  have heq := hcopy.symm.trans heq
  have hsame := hstart.eq_of_length (Prod.ext_iff.1 (Option.some_inj.1 heq)).2.symm
  cases ws with
  | nil => cases hsame
  | cons w ws =>
    obtain ⟨c, t, rfl, -⟩ := (words_cons.1 hws).1.exists_cons
    rcases gbkWord_cases (words_cons.1 hws).1 with ⟨c', hc, hw⟩ | ⟨c', d, hc, hw⟩
    · obtain ⟨rfl, -⟩ := List.cons.inj hw
      rw [(List.cons.inj hsame).1] at hc
      exact absurd hc (by decide)
    · rw [hw] at hsame
      cases (List.cons.inj hsame).2

/-! ## `DeleteCtrlCharFromGBK` -/

/-- The half of a character at the end: it is kept. -/
theorem deleteCtrlCharLoop_cut (htail : tail = [] ∨ CutShort gbkWidth tail)
    (hat : m.At gbk source (tail ++ [0])) (h0 : 0 ∉ tail) (htarget : target = p.length)
    (hle : target ≤ source) (hsz : source + tail.length < (m gbk).length) :
    deleteCtrlCharLoop gbk ch (fuel + 1) (m.put gbk p) target source =
      some (m.put gbk (p ++ tail ++ [0])) := by
  have hload (j : ℕ) (hj : source ≤ j) : (m.put gbk p).load gbk j = m.load gbk j :=
    Mem.load_put fun _ => by omega
  rcases gbkCut_cases htail with rfl | ⟨c, hc, rfl⟩
  · rw [List.length_nil] at hsz
    rw [deleteCtrlCharLoop, hload _ le_rfl, hat.load, Option.bind_eq_bind, Option.bind_some,
      if_pos rfl, Mem.store_put htarget (by omega), List.append_nil]
  · rw [List.length_singleton] at hsz
    have hnext : (m.put gbk (p ++ [c])).load gbk (source + 1) = some 0 := by
      rw [Mem.load_put fun _ => by simp; omega, hat.tail.load]
    have hc0 : c ≠ 0 := fun h => h0 (h ▸ List.mem_cons_self)
    rw [deleteCtrlCharLoop, hload _ le_rfl, hat.load, Option.bind_eq_bind, Option.bind_some,
      if_neg hc0, if_pos ((highBit_iff c).2 hc),
      Mem.store_put htarget (by omega), Option.bind_eq_bind, Option.bind_some, hnext,
      Option.bind_some, if_pos rfl, Mem.store_put (by simp [htarget]) (by omega)]

/-- A byte below 0x80 is dropped or kept. -/
theorem deleteCtrlCharLoop_single (hc : c < 0x80) (hc0 : c ≠ 0) (hat : m.At gbk source (c :: s))
    (htarget : target = p.length) (hle : target ≤ source) (hsz : source < (m gbk).length) :
    deleteCtrlCharLoop gbk ch (fuel + 1) (m.put gbk p) target source =
      if c = ch then deleteCtrlCharLoop gbk ch fuel (m.put gbk p) target (source + 1)
      else deleteCtrlCharLoop gbk ch fuel (m.put gbk (p ++ [c])) (target + 1) (source + 1) := by
  have hload : (m.put gbk p).load gbk source = some c := by
    rw [Mem.load_put fun _ => by omega, hat.load]
  rw [deleteCtrlCharLoop, hload, Option.bind_eq_bind, Option.bind_some, if_neg hc0,
    if_neg (mt (highBit_iff c).1 (not_not.2 hc)), Mem.store_put htarget (by omega)]
  rfl

/-- A character of two bytes is kept. -/
theorem deleteCtrlCharLoop_double (hc : ¬ c < 0x80) (hc0 : c ≠ 0) (hd0 : d ≠ 0)
    (hat : m.At gbk source (c :: d :: s)) (htarget : target = p.length) (hle : target ≤ source)
    (hsz : source + 1 < (m gbk).length) :
    deleteCtrlCharLoop gbk ch (fuel + 1) (m.put gbk p) target source =
      deleteCtrlCharLoop gbk ch fuel (m.put gbk (p ++ [c, d])) (target + 2) (source + 2) := by
  have hload : (m.put gbk p).load gbk source = some c := by
    rw [Mem.load_put fun _ => by omega, hat.load]
  have hload' : (m.put gbk (p ++ [c])).load gbk (source + 1) = some d := by
    rw [Mem.load_put fun _ => by simp; omega, hat.tail.load]
  rw [deleteCtrlCharLoop, hload, Option.bind_eq_bind, Option.bind_some, if_neg hc0,
    if_pos ((highBit_iff c).2 hc), Mem.store_put htarget (by omega), Option.bind_eq_bind,
    Option.bind_some, hload', Option.bind_some, if_neg hd0,
    Mem.store_put (by simp [htarget]) (by omega), List.append_assoc]
  rfl

/-- **The loop** from a character on, `p` what is kept of the characters before:
    it is never longer than they are.  The induction is on the characters
    left. -/
theorem deleteCtrlCharLoop_put (hws : Words gbkWidth ws)
    (htail : tail = [] ∨ CutShort gbkWidth tail)
    (hat : m.At gbk source (ws.flatten ++ (tail ++ [0]))) (h0 : 0 ∉ ws.flatten ++ tail)
    (htarget : target = p.length) (hle : target ≤ source)
    (hsz : source + (ws.flatten ++ tail).length < (m gbk).length)
    (hfuel : (ws.flatten ++ tail).length < fuel) :
    deleteCtrlCharLoop gbk ch fuel (m.put gbk p) target source =
      some (m.put gbk (p ++ (ws.filter (· ≠ [ch])).flatten ++ tail ++ [0])) := by
  induction ws generalizing fuel target source p with
  | nil =>
    obtain ⟨fuel, rfl⟩ := Nat.exists_eq_succ_of_ne_zero (Nat.ne_zero_of_lt hfuel)
    rw [List.flatten_nil, List.nil_append] at hat h0 hsz
    rw [deleteCtrlCharLoop_cut htail hat h0 htarget hle hsz, List.filter_nil, List.flatten_nil,
      List.append_nil]
  | cons w ws ih =>
    obtain ⟨fuel, rfl⟩ := Nat.exists_eq_succ_of_ne_zero (Nat.ne_zero_of_lt hfuel)
    obtain ⟨hw, hrest⟩ := words_cons.1 hws
    rw [List.flatten_cons, List.append_assoc] at hat h0 hsz hfuel
    rw [List.length_append] at hsz hfuel
    have hnext := hat.drop
    obtain ⟨h0w, h0'⟩ := not_or.1 (mt List.mem_append.2 h0)
    rcases gbkWord_cases hw with ⟨c, hc, rfl⟩ | ⟨c, d, hc, rfl⟩
    · rw [List.length_singleton] at hsz hfuel hnext
      have hc0 : c ≠ 0 := fun h => h0w (h ▸ List.mem_cons_self)
      rw [deleteCtrlCharLoop_single hc hc0 hat htarget hle (by omega)]
      by_cases hch : c = ch
      · rw [if_pos hch, ih hrest hnext h0' htarget (by omega) (by omega) (by omega),
          List.filter_cons_of_neg (by simp [hch])]
      · rw [if_neg hch, ih hrest hnext h0' (by simp [htarget]) (by omega) (by omega) (by omega),
          List.filter_cons_of_pos (by simp [hch]), List.flatten_cons, ← List.append_assoc]
    · simp only [List.length_cons, List.length_nil] at hsz hfuel hnext
      have hc0 : c ≠ 0 := fun h => h0w (h ▸ List.mem_cons_self)
      have hd0 : d ≠ 0 := fun h => h0w (h ▸ List.mem_cons_of_mem c List.mem_cons_self)
      rw [deleteCtrlCharLoop_double hc hc0 hd0 hat htarget hle (by omega),
        ih hrest hnext h0' (by simp [htarget]) (by omega) (by omega) (by omega),
        List.filter_cons_of_pos (by simp), List.flatten_cons, ← List.append_assoc]

/-- **What `DeleteCtrlCharFromGBK` leaves**: the characters but `ch`, and the
    half of a character at the end. -/
theorem deleteCtrlChar (hv : m.IsStr gbk s) (ch : UInt8) :
    ∃ ws tail, s = ws.flatten ++ tail ∧ Words gbkWidth ws ∧
      (tail = [] ∨ CutShort gbkWidth tail) ∧
      deleteCtrlCharFromGBK m (some gbk) ch =
        some (m.put gbk ((ws.filter (· ≠ [ch])).flatten ++ tail ++ [0])) := by
  obtain ⟨ws, tail, rfl, hws, htail⟩ := exists_words gbkWidth_pos s
  have hat := hv.at_end
  rw [List.append_assoc] at hat
  have h := @deleteCtrlCharLoop_put m gbk _ 0 0 [] tail ws ch hws htail hat hv.1 rfl le_rfl
    (by rw [Nat.zero_add]; exact hv.length_lt) hv.length_lt
  rw [Mem.put_nil, List.nil_append] at h
  exact ⟨ws, tail, rfl, hws, htail, h⟩

/-- A character whose second byte is `|`, before a `|` and the half of a
    character. -/
theorem deleteCtrlChar_bar : ∃ ws tail, [0xB0, 124, 124, 0xB0] = ws.flatten ++ tail ∧
    Words gbkWidth ws ∧ (tail = [] ∨ CutShort gbkWidth tail) ∧
    deleteCtrlCharFromGBK (fun b => [[0xB0, 124, 124, 0xB0, 0]].getD b []) (some 0) 124 =
      some (Mem.put (fun b => [[0xB0, 124, 124, 0xB0, 0]].getD b []) 0
        ((ws.filter (· ≠ [124])).flatten ++ tail ++ [0])) :=
  @deleteCtrlChar (fun b => [[0xB0, 124, 124, 0xB0, 0]].getD b []) 0 [0xB0, 124, 124, 0xB0]
    ⟨by decide, [], rfl⟩ 124

end CppExperiment.STD
