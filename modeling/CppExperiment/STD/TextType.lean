/-
  `STD::CheckTextType` (CommonTools/STD.cc), and how it agrees with
  `STD::get_utf8_words`.

  `checkTextType_iff`: a text is `FT_UTF8` if it consists of characters of one
  to six bytes (`Utf8Text`).  `get_utf8_words` takes the first byte of a
  character of five or six bytes for a character of its own; a cut may therefore
  fall into such a character, but into no other (`textType_getUtf8Words`).
  `isHaveBOM_iff`: the test for a byte order mark reads four bytes of a text that
  has three.
-/
import CppExperiment.Lib.LittleEndian
import CppExperiment.STD.Utf8Words

namespace CppExperiment.STD

/-- `FT_TEXTTYPE` -/
inductive TextType where
  | FT_ANSI
  | FT_UTF8
  deriving DecidableEq, Repr

/-- The cases of `CheckTextType`: the length of the character that starts with
    the byte `c`. -/
def leadSize (c : UInt8) : Option ℕ :=
  if c &&& 0x80 = 0 then some 1
  else if c &&& 0xe0 = 0xc0 then some 2
  else if c &&& 0xf0 = 0xe0 then some 3
  else if c &&& 0xf8 = 0xf0 then some 4
  else if c &&& 0xfc = 0xf8 then some 5
  else if c &&& 0xfe = 0xfc then some 6
  else none

/-- The next `n` bytes have the form 10xx xxxx. -/
def continues (m : Mem) (data : ℕ) : (i n : ℕ) → Option Bool
  | _, 0 => some true
  | i, n + 1 => do
    let c ← m.load data i
    if c &&& 0xc0 = 0x80 then continues m data (i + 1) n else some false

/-- The loop of `CheckTextType`. -/
def checkLoop (m : Mem) (data : ℕ) : (fuel i : ℕ) → (size : ℤ) → Option TextType
  | 0, _, _ => none
  | fuel + 1, i, size =>
    if size > 0 then do
      let c ← m.load data i
      match leadSize c with
      | some n =>
        if size ≥ n then
          if ← continues m data (i + 1) (n - 1) then checkLoop m data fuel (i + n) (size - n)
          else some .FT_ANSI
        else some .FT_ANSI
      | none => some .FT_ANSI
    else some .FT_UTF8

/-- `CheckTextType(data, size)` -/
def checkTextType (m : Mem) (data : ℕ) (size : ℤ) : Option TextType :=
  checkLoop m data (size.toNat + 1) 0 size

/-! ## Texts of characters -/

/-- A character of `CheckTextType`. -/
def IsChar : List UInt8 → Prop
  | [] => False
  | c :: t => leadSize c = some (t.length + 1) ∧ ∀ x ∈ t, x &&& 0xc0 = 0x80

/-- A text of characters. -/
inductive Utf8Text : List UInt8 → Prop where
  | nil : Utf8Text []
  | cons {w s : List UInt8} : IsChar w → Utf8Text s → Utf8Text (w ++ s)

variable {m : Mem} {data src dest fuel i n : ℕ} {destSize : ℤ} {c : UInt8}
  {s t u v w : List UInt8} {cs : List (List UInt8)}

theorem leadSize_pos (h : leadSize c = some n) : 0 < n := by
  unfold leadSize at h
  split_ifs at h <;> cases h <;> decide

/-- The first byte tells where the first character ends. -/
theorem utf8Text_cons_iff :
    Utf8Text (c :: s) ↔ ∃ n, leadSize c = some (n + 1) ∧ n ≤ s.length ∧
      (∀ x ∈ s.take n, x &&& 0xc0 = 0x80) ∧ Utf8Text (s.drop n) := by
  constructor
  · intro h
    generalize hx : c :: s = x at h
    cases h with
    | nil => cases hx
    | @cons w s' hw hs' =>
      cases w with
      | nil => exact hw.elim
      | cons c' t =>
        rw [List.cons_append, List.cons.injEq] at hx
        obtain ⟨rfl, rfl⟩ := hx
        obtain ⟨hlead, hcont⟩ := hw
        refine ⟨t.length, hlead, ?_, ?_, ?_⟩
        · rw [List.length_append]
          omega
        · rwa [List.take_left]
        · rwa [List.drop_left]
  · rintro ⟨n, hc, hn, hcont, hs⟩
    have hw : IsChar (c :: s.take n) := ⟨by rw [hc, List.length_take_of_le hn], hcont⟩
    have h := Utf8Text.cons hw hs
    rwa [List.cons_append, List.take_append_drop] at h

theorem continues_eq (h : m.At data i s) :
    continues m data i s.length = some (decide (∀ x ∈ s, x &&& 0xc0 = 0x80)) := by
  induction s generalizing i with
  | nil => simp [continues]
  | cons c s ih =>
    rw [List.length_cons, continues, h.load, Option.bind_eq_bind, Option.bind_some, ih h.tail]
    split_ifs with hc <;> simp [hc]

/-- One round, at a character that lies within the text. -/
theorem checkLoop_char (h : m.At data i (c :: s)) (hc : leadSize c = some (n + 1))
    (hn : n ≤ s.length) :
    checkLoop m data (fuel + 1) i (c :: s).length =
      if ∀ x ∈ s.take n, x &&& 0xc0 = 0x80 then
        checkLoop m data fuel (i + (n + 1)) (s.drop n).length
      else some .FT_ANSI := by
  have hlen : (s.take n).length = n := List.length_take_of_le hn
  have hat : m.At data (i + 1) (s.take n ++ s.drop n) := by
    rw [List.take_append_drop]
    exact h.tail
  have hcont := continues_eq hat.of_append
  rw [hlen] at hcont
  have hsize : ((c :: s).length : ℤ) - (n + 1 : ℕ) = (s.drop n).length := by
    rw [List.length_cons, List.length_drop]
    omega
  rw [checkLoop, if_pos (by rw [List.length_cons]; omega), h.load, Option.bind_eq_bind,
    Option.bind_some, hc]
  dsimp only
  rw [if_pos (by rw [List.length_cons]; omega), Nat.add_sub_cancel, hcont, Option.bind_eq_bind,
    Option.bind_some, hsize]
  simp only [decide_eq_true_eq]

/-- One round, at a byte that starts no character within the text. -/
theorem checkLoop_other (h : m.At data i (c :: s))
    (hc : ∀ n, leadSize c = some (n + 1) → s.length < n) :
    checkLoop m data (fuel + 1) i (c :: s).length = some .FT_ANSI := by
  rw [checkLoop, if_pos (by rw [List.length_cons]; omega), h.load, Option.bind_eq_bind,
    Option.bind_some]
  cases hlead : leadSize c with
  | none => rfl
  | some k =>
    obtain ⟨n, rfl⟩ := Nat.exists_eq_add_one_of_ne_zero (leadSize_pos hlead).ne'
    have hlt := hc n hlead
    exact if_neg (by rw [List.length_cons]; omega)

/-- **Only bytes of the text are read**, and the answer tells whether they are
    characters. -/
theorem checkLoop_eq (h : m.At data i s) (hfuel : s.length < fuel) :
    ∃ r, checkLoop m data fuel i s.length = some r ∧ (r = .FT_UTF8 ↔ Utf8Text s) := by
  induction fuel generalizing s i with
  | zero => exact absurd hfuel (Nat.not_lt_zero _)
  | succ fuel ih =>
    cases s with
    | nil => exact ⟨.FT_UTF8, if_neg (by simp), iff_of_true rfl .nil⟩
    | cons c s =>
      rw [List.length_cons] at hfuel
      rw [utf8Text_cons_iff]
      by_cases hc : ∃ n, leadSize c = some (n + 1) ∧ n ≤ s.length
      · obtain ⟨n, hc, hn⟩ := hc
        rw [checkLoop_char h hc hn]
        simp only [hc, Option.some_inj, Nat.add_right_cancel_iff, exists_eq_left']
        have hnext : m.At data (i + (n + 1)) (s.drop n) := by
          have hat : m.At data i ((c :: s.take n) ++ s.drop n) := by
            rwa [List.cons_append, List.take_append_drop]
          have hdrop := hat.drop
          rwa [List.length_cons, List.length_take_of_le hn] at hdrop
        split_ifs with hall
        · obtain ⟨r, hr, hiff⟩ := ih hnext (by rw [List.length_drop]; omega)
          exact ⟨r, hr, hiff.trans ⟨fun h => ⟨hn, hall, h⟩, fun h => h.2.2⟩⟩
        · exact ⟨.FT_ANSI, rfl, iff_of_false nofun fun h => hall h.2.1⟩
      · have hother : ∀ n, leadSize c = some (n + 1) → s.length < n := fun n hn =>
          not_le.1 fun hle => hc ⟨n, hn, hle⟩
        exact ⟨.FT_ANSI, checkLoop_other h hother,
          iff_of_false nofun fun ⟨n, hn, hle, _⟩ => hc ⟨n, hn, hle⟩⟩

theorem checkTextType_iff (h : m.At data 0 s) :
    checkTextType m data s.length = some .FT_UTF8 ↔ Utf8Text s := by
  obtain ⟨r, hr, hiff⟩ := checkLoop_eq h (Nat.lt_succ_self _)
  rw [checkTextType, Int.toNat_natCast, hr, Option.some_inj, hiff]

/-! ## Cutting a text -/

theorem IsChar.append_iff (hw : IsChar w) : Utf8Text (w ++ s) ↔ Utf8Text s := by
  refine ⟨fun h => ?_, .cons hw⟩
  cases w with
  | nil => exact hw.elim
  | cons c t =>
    obtain ⟨hlead, -⟩ := hw
    rw [List.cons_append, utf8Text_cons_iff] at h
    obtain ⟨n, hn, -, -, hs⟩ := h
    rw [hlead, Option.some_inj, Nat.add_right_cancel_iff] at hn
    rwa [← hn, List.drop_left] at hs

theorem Utf8Text.append_iff (hu : Utf8Text u) : Utf8Text (u ++ s) ↔ Utf8Text s := by
  induction hu with
  | nil => rfl
  | cons hw _ ih => rw [List.append_assoc, hw.append_iff, ih]

/-- A character that is cut is none. -/
theorem IsChar.not_take (hw : IsChar w) (h0 : 0 < n) (hn : n < w.length) :
    ¬ Utf8Text (w.take n) := by
  cases w with
  | nil => exact hw.elim
  | cons c t =>
    obtain ⟨hlead, -⟩ := hw
    obtain ⟨n, rfl⟩ := Nat.exists_eq_add_one_of_ne_zero h0.ne'
    rw [List.take_succ_cons, utf8Text_cons_iff]
    rintro ⟨k, hk, hle, -⟩
    rw [hlead, Option.some_inj, Nat.add_right_cancel_iff] at hk
    rw [List.length_cons] at hn
    rw [List.length_take] at hle
    omega

/-- The character at the index `n`. -/
theorem Utf8Text.exists_char (hs : Utf8Text s) (hn : n < s.length) :
    ∃ u w v, s = u ++ (w ++ v) ∧ Utf8Text u ∧ IsChar w ∧ u.length ≤ n ∧
      n < u.length + w.length := by
  induction hs generalizing n with
  | nil => exact absurd hn (Nat.not_lt_zero n)
  | @cons w s hw hs ih =>
    by_cases hlt : n < w.length
    · exact ⟨[], w, s, rfl, .nil, hw, Nat.zero_le n, by rwa [List.length_nil, Nat.zero_add]⟩
    · rw [List.length_append] at hn
      obtain ⟨u, w', v, rfl, hu, hw', hle, hlt'⟩ := ih (n := n - w.length) (by omega)
      refine ⟨w ++ u, w', v, (List.append_assoc _ _ _).symm, .cons hw hu, hw', ?_, ?_⟩ <;>
        rw [List.length_append] <;> omega

/-! ## Characters as words -/

/-- The two tables agree on characters of at most four bytes. -/
theorem wordSize_of_leadSize (h : leadSize c = some n) :
    utf8WordSize c = if n ≤ 4 then n else 1 := by
  have hall : ∀ c : UInt8, (leadSize c).map (fun n => if n ≤ 4 then n else 1) =
      (leadSize c).map fun _ => utf8WordSize c := by
    rintro ⟨⟨x⟩⟩
    revert x
    decide +kernel
  have hc := hall c
  rw [h, Option.map_some, Option.map_some, Option.some_inj] at hc
  exact hc.symm

theorem wordSize_of_continuation (h : c &&& 0xc0 = 0x80) : utf8WordSize c = 1 := by
  have hall : ∀ c : UInt8, c &&& 0xc0 = 0x80 → utf8WordSize c = 1 := by
    rintro ⟨⟨x⟩⟩
    revert x
    decide +kernel
  exact hall c h

/-- The characters that `get_utf8_words` sees in one character. -/
def wordsOfChar (w : List UInt8) : List (List UInt8) :=
  if w.length ≤ 4 then [w] else w.map fun c => [c]

theorem flatten_wordsOfChar (w : List UInt8) : (wordsOfChar w).flatten = w := by
  unfold wordsOfChar
  split_ifs
  · exact List.flatten_singleton
  · exact List.flatMap_singleton' w

theorem words_wordsOfChar (hw : IsChar w) : Words utf8WordSize (wordsOfChar w) := by
  cases w with
  | nil => exact hw.elim
  | cons c t =>
    obtain ⟨hlead, hcont⟩ := hw
    have hsize := wordSize_of_leadSize hlead
    unfold wordsOfChar
    split_ifs with h4
    · rw [List.length_cons] at h4
      rw [if_pos h4] at hsize
      exact words_cons.2 ⟨hsize.symm, words_nil⟩
    · rw [List.length_cons] at h4
      rw [if_neg h4] at hsize
      intro x hx
      obtain ⟨d, hd, rfl⟩ := List.mem_map.1 hx
      rcases List.mem_cons.1 hd with rfl | hd
      · exact hsize.symm
      · exact (wordSize_of_continuation (hcont d hd)).symm

theorem Utf8Text.exists_words (hs : Utf8Text s) :
    ∃ ws, Words utf8WordSize ws ∧ ws.flatten = s := by
  induction hs with
  | nil => exact ⟨[], words_nil, rfl⟩
  | @cons w s hw _ ih =>
    obtain ⟨ws, hws, rfl⟩ := ih
    refine ⟨wordsOfChar w ++ ws, words_append.2 ⟨words_wordsOfChar hw, hws⟩, ?_⟩
    rw [List.flatten_append, flatten_wordsOfChar]

/-- What fits of a character: all or nothing, or any number of bytes of a long
    one. -/
theorem fit_wordsOfChar (ws : List (List UInt8)) (hn : n < w.length) :
    (fit List.length n (wordsOfChar w ++ ws)).flatten = if w.length ≤ 4 then [] else w.take n := by
  unfold wordsOfChar
  split_ifs with h4
  · rw [List.singleton_append, fit_cons_of_lt hn, List.flatten_nil]
  · have hone : ∀ x ∈ w.map fun c => [c], List.length x = 1 := by
      intro x hx
      obtain ⟨c, -, rfl⟩ := List.mem_map.1 hx
      rfl
    rw [fit_ones hone (by rwa [List.length_map]), ← List.map_take]
    exact List.flatMap_singleton' _

/-! ## Both functions -/

/-- The cut falls into a character of five or six bytes. -/
def SplitsLong (s : List UInt8) (n : ℕ) : Prop :=
  ∃ u w v, s = u ++ (w ++ v) ∧ Utf8Text u ∧ IsChar w ∧ 5 ≤ w.length ∧ u.length < n ∧
    n < u.length + w.length

/-- A text of characters that is cut in the character `w`. -/
theorem getUtf8Words_char (hne : src ≠ dest) (hat : m.At src 0 (u ++ (w ++ v)))
    (hint : ((u ++ (w ++ v)).length : ℤ) < 2 ^ 31) (h1 : 1 ≤ destSize)
    (hsz : destSize ≤ (m dest).length) (hs : Utf8Text (u ++ (w ++ v))) (hu : Utf8Text u)
    (hw : IsChar w) (hn : (destSize - 1).toNat = n) (hle : u.length ≤ n)
    (hlt : n < u.length + w.length) :
    ∃ t, t = u ++ (if w.length ≤ 4 then [] else w.take (n - u.length)) ∧
      getUtf8Words m (some src) (u ++ (w ++ v)).length (some dest) destSize =
        some (m.put dest (t ++ [0]), t.length) := by
  rw [hu.append_iff, hw.append_iff] at hs
  obtain ⟨us, hus, rfl⟩ := hu.exists_words
  obtain ⟨vs, hvs, rfl⟩ := hs.exists_words
  have hws : Words utf8WordSize (us ++ (wordsOfChar w ++ vs)) :=
    words_append.2 ⟨hus, words_append.2 ⟨words_wordsOfChar hw, hvs⟩⟩
  have hflat : (us ++ (wordsOfChar w ++ vs)).flatten = us.flatten ++ (w ++ vs.flatten) := by
    rw [List.flatten_append, List.flatten_append, flatten_wordsOfChar]
  have hcut : (fit List.length n (us ++ (wordsOfChar w ++ vs))).flatten =
      us.flatten ++ (if w.length ≤ 4 then [] else w.take (n - us.flatten.length)) := by
    rw [fit_append (length_flatten us ▸ hle), List.flatten_append, ← length_flatten,
      fit_wordsOfChar vs (by omega)]
  rw [← hflat] at hat hint ⊢
  have hfit := getUtf8Words_words hne hws hat hint h1 hsz
  rw [hn, hcut] at hfit
  exact ⟨_, rfl, hfit⟩

/-- **A cut text is again `FT_UTF8`**, unless the cut falls into a character of
    five or six bytes. -/
theorem textType_getUtf8Words (hne : src ≠ dest) (hat : m.At src 0 s)
    (hint : (s.length : ℤ) < 2 ^ 31) (h1 : 1 ≤ destSize) (hsz : destSize ≤ (m dest).length)
    (htext : checkTextType m src s.length = some .FT_UTF8) :
    ∃ m' len, getUtf8Words m (some src) s.length (some dest) destSize = some (m', len) ∧
      (checkTextType m' dest len = some .FT_UTF8 ↔ ¬ SplitsLong s (destSize - 1).toNat) := by
  have hs := (checkTextType_iff hat).1 htext
  have hcheck (t : List UInt8) :
      checkTextType (m.put dest (t ++ [0])) dest t.length = some .FT_UTF8 ↔ Utf8Text t :=
    checkTextType_iff Mem.at_put.of_append
  generalize hn : (destSize - 1).toNat = n
  by_cases hsplit : SplitsLong s n
  · obtain ⟨u, w, v, rfl, hu, hw, h5, hle, hlt⟩ := id hsplit
    obtain ⟨t, ht, hget⟩ := getUtf8Words_char hne hat hint h1 hsz hs hu hw hn hle.le hlt
    refine ⟨_, _, hget, iff_of_false ?_ (not_not.2 hsplit)⟩
    rw [hcheck, ht, if_neg (by omega), hu.append_iff]
    exact hw.not_take (by omega) (by omega)
  · by_cases hlt : n < s.length
    · obtain ⟨u, w, v, rfl, hu, hw, hle, hlt⟩ := hs.exists_char hlt
      obtain ⟨t, ht, hget⟩ := getUtf8Words_char hne hat hint h1 hsz hs hu hw hn hle hlt
      refine ⟨_, _, hget, iff_of_true ?_ hsplit⟩
      have htu : t = u := by
        rw [ht, List.append_right_eq_self]
        split_ifs with h4
        · rfl
        · have heq : n - u.length = 0 := by
            by_contra hne
            exact hsplit ⟨u, w, v, rfl, hu, hw, by omega, by omega, hlt⟩
          rw [heq, List.take_zero]
      rwa [hcheck, htu]
    · obtain ⟨ws, hws, rfl⟩ := hs.exists_words
      have hfit := getUtf8Words_words hne hws hat hint h1 hsz
      rw [fit_eq_self (by rw [← length_flatten]; omega)] at hfit
      exact ⟨_, _, hfit, iff_of_true ((hcheck _).2 hs) hsplit⟩

/-- U+4E2D and `a` in a buffer with room for two bytes. -/
theorem textType_getUtf8Words_cut : ∃ m' len,
    getUtf8Words (fun b => [[0xE4, 0xB8, 0xAD, 97], [7, 7, 7]].getD b []) (some 0) 4 (some 1) 3 =
      some (m', len) ∧
    (checkTextType m' 1 len = some .FT_UTF8 ↔ ¬ SplitsLong [0xE4, 0xB8, 0xAD, 97] 2) :=
  @textType_getUtf8Words (fun b => [[0xE4, 0xB8, 0xAD, 97], [7, 7, 7]].getD b []) 0 1 3
    [0xE4, 0xB8, 0xAD, 97] (by decide) List.prefix_rfl (by decide) (by decide) (by decide)
    (by decide +kernel)

/-- A character of five bytes: one byte of it is left. -/
theorem textType_five : ∃ m' : Mem,
    checkTextType (fun b => [[0xF8, 0x80, 0x80, 0x80, 0x80], [7, 7]].getD b []) 0 5 =
      some .FT_UTF8 ∧
    getUtf8Words (fun b => [[0xF8, 0x80, 0x80, 0x80, 0x80], [7, 7]].getD b []) (some 0) 5 (some 1)
      2 = some (m', 1) ∧
    checkTextType m' 1 1 = some .FT_ANSI := by
  have hws : Words utf8WordSize [[0xF8], [0x80], [0x80], [0x80], [0x80]] :=
    words_wordsOfChar (w := [0xF8, 0x80, 0x80, 0x80, 0x80]) ⟨by decide, by decide +kernel⟩
  have h := @getUtf8Words_words (fun b => [[0xF8, 0x80, 0x80, 0x80, 0x80], [7, 7]].getD b []) 0 1 2
    _ (by decide) hws List.prefix_rfl (by decide) (by decide) (by decide)
  exact ⟨_, by decide +kernel, h, by decide +kernel⟩

/-! ## The byte order mark -/

/-- `isHaveBOM(data, size)`; the first four bytes are read as an `int`. -/
def isHaveBOM (m : Mem) (data : ℕ) (size : ℤ) : Option Bool :=
  if size ≥ 3 then do
    let lo ← m.loadWord data 0
    let hi ← m.loadWord data 2
    let value := lo.toUInt32 + 65536 * hi.toUInt32
    return value &&& 0x00ffffff == 0xbfbbef
  else some false

/-- The mark: U+FEFF in UTF-8. -/
def bom : List UInt8 := [0xEF, 0xBB, 0xBF]

/-- The three lower bytes of the `int`. -/
theorem bom_value (a b c d : UInt8) :
    (((word a b).toUInt32 + 65536 * (word c d).toUInt32) &&& 0x00ffffff == 0xbfbbef) =
      decide (bom <+: [a, b, c]) := by
  have ha := a.toNat_lt
  have hb := b.toNat_lt
  have hc := c.toNat_lt
  have hd := d.toNat_lt
  have hvalue : ((word a b).toUInt32 + 65536 * (word c d).toUInt32 &&& 0x00ffffff).toNat =
      a.toNat + 256 * b.toNat + 65536 * c.toNat := by
    have hmask : (0x00ffffff : UInt32).toNat = 2 ^ 24 - 1 := rfl
    have hshift : (65536 : UInt32).toNat = 65536 := rfl
    rw [UInt32.toNat_and, hmask, Nat.and_two_pow_sub_one_eq_mod, UInt32.toNat_add,
      UInt32.toNat_mul, hshift, UInt16.toNat_toUInt32, UInt16.toNat_toUInt32, toNat_word,
      toNat_word]
    omega
  have hbom : (0xbfbbef : UInt32).toNat = 0xEF + 256 * 0xBB + 65536 * 0xBF := rfl
  rw [Bool.eq_iff_iff, beq_iff_eq, decide_eq_true_iff, ← UInt32.toNat_inj, hvalue, hbom, bom,
    List.cons_prefix_cons, List.cons_prefix_cons, List.cons_prefix_cons, ← UInt8.toNat_inj,
    ← UInt8.toNat_inj, ← UInt8.toNat_inj]
  simp only [UInt8.reduceToNat, List.nil_prefix, and_true]
  omega

theorem isHaveBOM_four {a b c d : UInt8} {r : List UInt8} {size : ℤ}
    (h : m data = a :: b :: c :: d :: r) (hsize : 3 ≤ size) :
    isHaveBOM m data size = some (decide (bom <+: [a, b, c])) := by
  have hat : m.At data 0 (a :: b :: c :: d :: r) := by rw [Mem.At, List.drop_zero, h]
  rw [isHaveBOM, if_pos hsize, hat.loadWord, Option.bind_eq_bind, Option.bind_some,
    hat.tail.tail.loadWord, Option.bind_some]
  exact congrArg some (bom_value a b c d)

/-- **When `isHaveBOM` is right**: unless the text has three bytes and nothing may
    be read behind it. -/
theorem isHaveBOM_iff {r : List UInt8} (h : m data = s ++ r) :
    isHaveBOM m data s.length = some (decide (bom <+: s)) ↔ s.length ≠ 3 ∨ r ≠ [] := by
  match s with
  | [] => simp [isHaveBOM, bom]
  | [_] => simp [isHaveBOM, bom]
  | [_, _] => simp [isHaveBOM, bom]
  | [a, b, c] =>
    cases r with
    | nil =>
      -- the fourth byte is not there
      have hload : m.loadWord data 2 = none := by simp [Mem.loadWord, Mem.load, h]
      have hnone : isHaveBOM m data ([a, b, c] : List UInt8).length = none := by
        simp [isHaveBOM, hload]
      rw [hnone]
      simp
    | cons d r => simp [isHaveBOM_four h]
  | a :: b :: c :: d :: s =>
    have hpre : bom <+: a :: b :: c :: d :: s ↔ bom <+: [a, b, c] := by simp [bom]
    have hsize : (3 : ℤ) ≤ (a :: b :: c :: d :: s).length := by
      simp only [List.length_cons]
      omega
    simp only [isHaveBOM_four h hsize, hpre]
    simp

/-- A text that is only the mark, with its NUL behind it. -/
theorem isHaveBOM_iff_terminated :
    isHaveBOM (fun b => [[0xEF, 0xBB, 0xBF, 0]].getD b []) 0 3 = some true :=
  (@isHaveBOM_iff (fun b => [[0xEF, 0xBB, 0xBF, 0]].getD b []) 0 [0xEF, 0xBB, 0xBF] [0] rfl).2
    (.inr (by decide))

end CppExperiment.STD
