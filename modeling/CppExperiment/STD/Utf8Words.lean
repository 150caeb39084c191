/-
  `STD::get_utf8_words` (CommonTools/STD.cc): the first characters of a text,
  as many as fit into a buffer.

  The first byte of a character tells its length (`utf8WordSize`).  Only the
  end of the destination is compared with it, not the end of the source.

  * `getUtf8Words_fit`: of a text of whole characters, and maybe one that is cut
    short, the characters that fit are copied, if the loop stops before the one
    that is cut short.
  * `getUtf8Words_iff`: otherwise the loop reads behind the end of the source.
-/
import CppExperiment.Lib.Memory
import CppExperiment.Lib.Words
import CppExperiment.STD.Base64

namespace CppExperiment.STD

/-- `utf8_word_size(first)` -/
def utf8WordSize (first : UInt8) : ℕ :=
  if first &&& 0x80 = 0 then 1
  else if first &&& 0xF8 = 0xF0 then 4
  else if first &&& 0xF0 = 0xE0 then 3
  else if first &&& 0xE0 = 0xC0 then 2
  else 1

/-- The loop of `get_utf8_words`: the memory and the length of what is copied. -/
def utf8Loop (src : ℕ) (srcLen : ℤ) (dest : ℕ) (destSize : ℤ) :
    (fuel : ℕ) → Mem → (len : ℕ) → Option (Mem × ℕ)
  | 0, _, _ => none
  | fuel + 1, m, len =>
    if len < srcLen then do
      let first ← m.load src len
      if (← addInt len (utf8WordSize first)) ≥ destSize then some (m, len)
      else
        let m ← m.memcpy dest len src len (utf8WordSize first)
        utf8Loop src srcLen dest destSize fuel m (len + utf8WordSize first)
    else some (m, len)

/-- `get_utf8_words(src, src_len, dest, dest_size)`; `none` is the null
    pointer. -/
def getUtf8Words (m : Mem) (src : Option ℕ) (srcLen : ℤ) (dest : Option ℕ) (destSize : ℤ) :
    Option (Mem × ℕ) :=
  match src, dest with
  | some src, some dest => do
    let (m, len) ← utf8Loop src srcLen dest destSize (srcLen.toNat + 1) m 0
    let m ← m.store dest len 0
    some (m, len)
  | _, _ => some (m, 0)

variable {m : Mem} {src dest fuel n : ℕ} {srcLen destSize : ℤ} {p r s w tail : List UInt8}
  {ws : List (List UInt8)} {c : UInt8}

theorem utf8WordSize_pos (c : UInt8) : 0 < utf8WordSize c := by
  unfold utf8WordSize
  split_ifs <;> decide

/-! ## One round -/

/-- The end of the source. -/
theorem utf8Loop_end : utf8Loop src p.length dest destSize (fuel + 1) m p.length =
    some (m, p.length) := by
  rw [utf8Loop, if_neg (lt_irrefl _)]

/-- One round, at a character. -/
theorem utf8Loop_load {len : ℕ} (hlen : (len : ℤ) < srcLen) (hload : m.load src len = some c) :
    utf8Loop src srcLen dest destSize (fuel + 1) m len =
      (addInt len (utf8WordSize c)).bind fun next =>
        if next ≥ destSize then some (m, len)
        else (m.memcpy dest len src len (utf8WordSize c)).bind fun m =>
          utf8Loop src srcLen dest destSize fuel m (len + utf8WordSize c) := by
  rw [utf8Loop, if_pos hlen, hload, Option.bind_eq_bind, Option.bind_some]
  rfl

/-- A character that fits is copied. -/
theorem utf8Loop_word (hne : src ≠ dest) (hat : m.At src p.length w)
    (hw : IsWord utf8WordSize w) (hint : srcLen < 2 ^ 31) (hlen : (p ++ w).length ≤ srcLen)
    (hfit : ((p ++ w).length : ℤ) < destSize) (hsz : destSize ≤ (m dest).length) :
    utf8Loop src srcLen dest destSize (fuel + 1) (m.put dest p) p.length =
      utf8Loop src srcLen dest destSize fuel (m.put dest (p ++ w)) (p ++ w).length := by
  obtain ⟨c, t, rfl, hsize⟩ := hw.exists_cons
  have hat' : (m.put dest p).At src p.length (c :: t) := hat.put_ne hne
  rw [List.length_append, hsize] at hlen hfit
  have hpos := utf8WordSize_pos c
  push_cast at hlen hfit
  rw [utf8Loop_load (by omega) hat'.load, addInt_eq (by omega), Option.bind_some,
    if_neg (by omega), Mem.memcpy, ← hsize, hat'.loadAll, Option.bind_eq_bind, Option.bind_some,
    Mem.storeAll_put rfl (by omega), Option.bind_some, List.length_append]

/-- A character for which there is no room. -/
theorem utf8Loop_full (hne : src ≠ dest) (hat : m.At src p.length (c :: r))
    (hlen : (p.length : ℤ) < srcLen) (hint : (p.length : ℤ) + utf8WordSize c < 2 ^ 31)
    (hfull : destSize ≤ p.length + utf8WordSize c) :
    utf8Loop src srcLen dest destSize (fuel + 1) (m.put dest p) p.length =
      some (m.put dest p, p.length) := by
  have hat' : (m.put dest p).At src p.length (c :: r) := hat.put_ne hne
  rw [utf8Loop_load hlen hat'.load, addInt_eq hint, Option.bind_some, if_pos hfull]

/-- The loop stops at the end of the source, or at a character for which there
    is no room. -/
theorem utf8Loop_stop (hne : src ≠ dest) (hat : m.At src p.length tail)
    (hlen : ((p.length + tail.length : ℕ) : ℤ) = srcLen)
    (hstop : ∀ c r, tail = c :: r → (p.length : ℤ) + utf8WordSize c < 2 ^ 31 ∧
      destSize ≤ p.length + utf8WordSize c) :
    utf8Loop src srcLen dest destSize (fuel + 1) (m.put dest p) p.length =
      some (m.put dest p, p.length) := by
  cases tail with
  | nil =>
    rw [← hlen]
    exact utf8Loop_end
  | cons c r =>
    obtain ⟨hint, hfull⟩ := hstop c r rfl
    rw [List.length_cons] at hlen
    exact utf8Loop_full hne hat (by omega) hint hfull

/-- A character that is cut short by the end of the source, and that would
    fit. -/
theorem utf8Loop_over (hne : src ≠ dest) (hsrc : m src = p ++ c :: r)
    (hcut : (c :: r).length < utf8WordSize c)
    (hroom : (p.length : ℤ) + utf8WordSize c < destSize ∨
      2 ^ 31 ≤ (p.length : ℤ) + utf8WordSize c) :
    utf8Loop src (m src).length dest destSize (fuel + 1) (m.put dest p) p.length = none := by
  have hat : (m.put dest p).At src p.length (c :: r) := by
    refine Mem.At.put_ne ?_ hne
    rw [Mem.At, hsrc, List.drop_left]
  have hlen : (m src).length = p.length + (c :: r).length := by rw [hsrc, List.length_append]
  have hblock : ((m.put dest p) src).length < p.length + utf8WordSize c := by
    rw [Mem.put_ne hne]
    omega
  have hlt : (p.length : ℤ) < (m src).length := by
    rw [List.length_cons] at hlen
    omega
  rw [utf8Loop_load hlt hat.load, addInt]
  split_ifs with hint
  · rw [Option.bind_some, if_neg (by omega), Mem.memcpy,
      Mem.loadAll_over (utf8WordSize_pos c) hblock]
    rfl
  · rfl

/-! ## The loop -/

/-- The characters that fit are copied one by one. -/
theorem utf8Loop_words (hne : src ≠ dest) (hws : Words utf8WordSize ws)
    (hat : m.At src p.length (ws.flatten ++ r)) (hint : srcLen < 2 ^ 31)
    (hlen : (p ++ ws.flatten).length ≤ srcLen) (hfit : ((p ++ ws.flatten).length : ℤ) < destSize)
    (hsz : destSize ≤ (m dest).length) :
    utf8Loop src srcLen dest destSize (fuel + ws.length) (m.put dest p) p.length =
      utf8Loop src srcLen dest destSize fuel (m.put dest (p ++ ws.flatten))
        (p ++ ws.flatten).length := by
  induction ws generalizing p with
  | nil => rw [List.flatten_nil, List.append_nil, List.length_nil, Nat.add_zero]
  | cons w ws ih =>
    obtain ⟨hw, hws⟩ := words_cons.1 hws
    rw [List.flatten_cons, ← List.append_assoc] at hlen hfit
    rw [List.flatten_cons, List.append_assoc] at hat
    have hat' := hat.drop
    rw [← List.length_append] at hat'
    have hpre := (List.prefix_append (p ++ w) ws.flatten).length_le
    rw [List.length_cons, ← Nat.add_assoc, utf8Loop_word hne (hat.of_append) hw hint (by omega)
      (by omega) hsz, ih hws hat' hlen hfit, List.flatten_cons, List.append_assoc]

theorem utf8Loop_start (hne : src ≠ dest) (hws : Words utf8WordSize ws)
    (hat : m.At src 0 (ws.flatten ++ r)) (hint : srcLen < 2 ^ 31)
    (hlen : (ws.flatten.length : ℤ) ≤ srcLen) (hfit : (ws.flatten.length : ℤ) < destSize)
    (hsz : destSize ≤ (m dest).length) :
    utf8Loop src srcLen dest destSize (srcLen.toNat + 1) m 0 =
      utf8Loop src srcLen dest destSize (srcLen.toNat + 1 - ws.length) (m.put dest ws.flatten)
        ws.flatten.length := by
  have hcount := hws.length_le
  have hfuel : srcLen.toNat + 1 - ws.length + ws.length = srcLen.toNat + 1 := by omega
  have h := @utf8Loop_words m src dest (srcLen.toNat + 1 - ws.length) srcLen destSize [] r ws hne
    hws hat hint (by rwa [List.nil_append]) (by rwa [List.nil_append]) hsz
  rwa [hfuel, Mem.put_nil, List.nil_append] at h

/-- **The characters that fit are copied**, if the loop stops before one that is
    cut short by the end of the source. -/
theorem getUtf8Words_fit (hne : src ≠ dest) (hws : Words utf8WordSize ws)
    (hat : m.At src 0 (ws.flatten ++ tail)) (hlen : ((ws.flatten ++ tail).length : ℤ) = srcLen)
    (hint : srcLen < 2 ^ 31) (h1 : 1 ≤ destSize) (hsz : destSize ≤ (m dest).length)
    (htail : ∀ c r, tail = c :: r → destSize ≤ ws.flatten.length ∨
      (ws.flatten.length : ℤ) + utf8WordSize c < 2 ^ 31 ∧
        destSize ≤ ws.flatten.length + utf8WordSize c) :
    getUtf8Words m (some src) srcLen (some dest) destSize =
      some (m.put dest ((fit List.length (destSize - 1).toNat ws).flatten ++ [0]),
        (fit List.length (destSize - 1).toNat ws).flatten.length) := by
  have hroom := room_fit_le List.length (destSize - 1).toNat ws
  rw [← length_flatten] at hroom
  have hstart := fit_isPrefix List.length (destSize - 1).toNat ws
  have hrest := exists_fit List.length (destSize - 1).toNat ws
  generalize fit List.length (destSize - 1).toNat ws = q at hroom hstart hrest ⊢
  obtain ⟨ws', rfl⟩ := hstart
  rw [List.flatten_append, List.append_assoc] at hat hlen
  rw [List.length_append] at hlen
  have hq := (words_append.1 hws).1
  have hcount := hq.length_le
  have hbehind := hat.drop
  rw [Nat.zero_add] at hbehind
  have hstop (fuel : ℕ) : utf8Loop src srcLen dest destSize (fuel + 1) (m.put dest q.flatten)
      q.flatten.length = some (m.put dest q.flatten, q.flatten.length) := by
    refine utf8Loop_stop hne hbehind hlen ?_
    intro c r hr
    rcases hrest with heq | ⟨w, rest, heq, hlt⟩
    · -- all words fit: what stands behind them is the tail
      obtain rfl := List.self_eq_append_right.1 heq
      rw [List.append_nil] at htail
      exact (htail c r hr).resolve_left (by omega)
    · rw [List.append_cancel_left_eq] at heq
      subst heq
      obtain ⟨c', t, rfl, hsize⟩ := (words_cons.1 (words_append.1 hws).2).1.exists_cons
      rw [← length_flatten, hsize] at hlt
      rw [List.flatten_cons, List.append_assoc] at hlen hr
      rw [List.length_append, hsize] at hlen
      obtain ⟨rfl, -⟩ := List.cons.inj hr
      exact ⟨by omega, by omega⟩
  have hrun := utf8Loop_start hne hq hat hint (by omega) (by omega) hsz
  obtain ⟨fuel, hfuel⟩ : ∃ fuel, srcLen.toNat + 1 - q.length = fuel + 1 :=
    ⟨srcLen.toNat - q.length, by omega⟩
  rw [hfuel, hstop] at hrun
  rw [getUtf8Words, hrun, Option.bind_eq_bind, Option.bind_some]
  dsimp only
  rw [Mem.store_put rfl (by omega)]
  rfl

/-- A source of whole characters. -/
theorem getUtf8Words_words (hne : src ≠ dest) (hws : Words utf8WordSize ws)
    (hat : m.At src 0 ws.flatten) (hint : (ws.flatten.length : ℤ) < 2 ^ 31) (h1 : 1 ≤ destSize)
    (hsz : destSize ≤ (m dest).length) :
    getUtf8Words m (some src) ws.flatten.length (some dest) destSize =
      some (m.put dest ((fit List.length (destSize - 1).toNat ws).flatten ++ [0]),
        (fit List.length (destSize - 1).toNat ws).flatten.length) := by
  have hat' : m.At src 0 (ws.flatten ++ []) := by rwa [List.append_nil]
  refine getUtf8Words_fit hne hws hat' (by rw [List.append_nil]) hint h1 hsz ?_
  intro c r h
  cases h

/-- The array ends in the middle of a character of `n` bytes that starts at
    `p`. -/
def CutAt (s : List UInt8) (p n : ℕ) : Prop :=
  ∃ ws c r, s = ws.flatten ++ c :: r ∧ Words utf8WordSize ws ∧ p = ws.flatten.length ∧
    n = utf8WordSize c ∧ (c :: r).length < n

/-- **When `get_utf8_words` stays within the source.**  The block of the source
    ends with the array. -/
theorem getUtf8Words_iff (hsrc : m src = s) (hne : src ≠ dest) (hint : (s.length : ℤ) < 2 ^ 31)
    (h1 : 1 ≤ destSize) (hsz : destSize ≤ (m dest).length) :
    (∃ len, getUtf8Words m (some src) s.length (some dest) destSize =
        some (m.put dest (s.take len ++ [0]), len) ∧
      len ≤ s.length ∧ (len : ℤ) ≤ destSize - 1) ↔
    ∀ p n, CutAt s p n →
      destSize ≤ p ∨ ((p : ℤ) + n < 2 ^ 31 ∧ destSize ≤ p + n) := by
  have hat : m.At src 0 s := by rw [Mem.At, hsrc, List.drop_zero]
  constructor
  · rintro ⟨len, hlen, -⟩ p n ⟨ws, c, r, rfl, hws, rfl, rfl, hcut⟩
    by_contra hno
    rw [not_or, not_and_or, not_le, not_lt, not_le] at hno
    have hsum : (ws.flatten ++ c :: r).length = ws.flatten.length + (c :: r).length :=
      List.length_append
    have hrun := utf8Loop_start hne hws hat hint (by omega) hno.1 hsz
    have hcount := hws.length_le
    obtain ⟨fuel, hfuel⟩ : ∃ fuel, ((ws.flatten ++ c :: r).length : ℤ).toNat + 1 - ws.length =
        fuel + 1 := ⟨(ws.flatten ++ c :: r).length - ws.length, by omega⟩
    have hover := @utf8Loop_over m src dest fuel destSize ws.flatten r c hne hsrc hcut hno.2.symm
    rw [hsrc] at hover
    rw [getUtf8Words, hrun, hfuel, hover] at hlen
    cases hlen
  · intro hcond
    obtain ⟨ws, tail, hs, hws, htail⟩ := exists_words utf8WordSize_pos s
    have hroom := room_fit_le List.length (destSize - 1).toNat ws
    rw [← length_flatten] at hroom
    obtain ⟨ws', hws'⟩ := fit_isPrefix List.length (destSize - 1).toNat ws
    have htail' (c : UInt8) (r : List UInt8) (hr : tail = c :: r) :
        destSize ≤ ws.flatten.length ∨ (ws.flatten.length : ℤ) + utf8WordSize c < 2 ^ 31 ∧
          destSize ≤ ws.flatten.length + utf8WordSize c := by
      subst hr
      have hcut := htail.resolve_left (List.cons_ne_nil c r)
      exact hcond _ _ ⟨ws, c, r, hs, hws, rfl, rfl, hcut⟩
    have hfit := getUtf8Words_fit hne hws (hs ▸ hat) (by rw [← hs]) hint h1 hsz htail'
    generalize fit List.length (destSize - 1).toNat ws = q at hfit hroom hws'
    have htake : s.take q.flatten.length = q.flatten := by
      rw [hs, ← hws', List.flatten_append, List.append_assoc, List.take_left]
    have hle : q.flatten.length ≤ s.length := by
      rw [← htake]
      exact (List.take_prefix _ _).length_le
    exact ⟨q.flatten.length, by rwa [htake], hle, by omega⟩

/-- The text `hi` in a buffer with room for one character. -/
theorem getUtf8Words_iff_hi : ∃ len,
    getUtf8Words (fun b => [[104, 105], [7, 7]].getD b []) (some 0) 2 (some 1) 2 =
      some (Mem.put (fun b => [[104, 105], [7, 7]].getD b []) 1 ([104, 105].take len ++ [0]),
        len) ∧ len ≤ 2 ∧ (len : ℤ) ≤ 2 - 1 := by
  refine (@getUtf8Words_iff (fun b => [[104, 105], [7, 7]].getD b []) 0 1 2 [104, 105] rfl
    (by decide) (by decide) (by decide) (by decide)).2 ?_
  rintro p n ⟨ws, c, r, hs, -, -, rfl, hcut⟩
  have hc : c ∈ [(104 : UInt8), 105] := by
    rw [hs]
    exact List.mem_append_right _ List.mem_cons_self
  rw [List.mem_cons, List.mem_singleton] at hc
  have hone : utf8WordSize c = 1 := by rcases hc with rfl | rfl <;> decide
  rw [hone, List.length_cons] at hcut
  omega

/-- The first byte of a character of three bytes: the other two are read behind
    the array. -/
theorem getUtf8Words_E4 :
    getUtf8Words (fun b => [[0xE4], [7, 7, 7, 7, 7, 7, 7, 7, 7, 7]].getD b []) (some 0) 1 (some 1)
      10 = none := by
  have h := @utf8Loop_over (fun b => [[0xE4], [7, 7, 7, 7, 7, 7, 7, 7, 7, 7]].getD b []) 0 1 1 10
    [] [] 0xE4 (by decide) rfl (by decide) (.inl (by decide))
  rw [Mem.put_nil] at h
  rw [getUtf8Words]
  exact congrArg (Option.bind · _) h

end CppExperiment.STD
