/-
  `STD::FormatDate` and `STD::GetDateTimeFromString` in CommonTools/STD.h, with
  `STD::GetValueInt` in CommonTools/STD.cc.

  `getValueInt_eq`: a field of digits is read as its value.
  `getDateTime_format`: what `FormatDate` and `FormatTime` print is read back.
-/
import CppExperiment.STD.FormatTime
import CppExperiment.STD.GetValue

namespace CppExperiment.STD
open StdString

/-- The text of a date. -/
def dateText (date : ℤ) : List UInt8 :=
  printInt 4 (date.tdiv 10000) ++ [45] ++ printInt 2 ((date.tdiv 100).tmod 100) ++ [45] ++
    printInt 2 (date.tmod 100)

/-- `FormatDate(out, size, date)`, where `out` is not null. -/
def formatDate (m : Mem) (out : ℕ) (size date : ℤ) : Option Mem :=
  if date ≠ 0 then do
    let (m, _) ← m.snprintf out (sizeT size) (dateText date)
    some m
  else if size > 0 then m.store out 0 0
  else some m

/-- `GetValueInt(src, num, ch)`; `dest` is the block of its array of 30
    bytes. -/
def getValueInt (m : Mem) (src dest : ℕ) (num : ℤ) (ch : UInt8) : Option ℤ := do
  let m ← getValue m src dest 30 num ch
  m.atoi dest 0

/-- `a * 10000 + b * 100 + c` -/
def joinInt (a b c : ℤ) : Option ℤ := do
  let a ← checkedInt (a * 10000)
  let b ← checkedInt (b * 100)
  let ab ← checkedInt (a + b)
  checkedInt (ab + c)

/-- Three fields as one number. -/
def fieldsInt (m : Mem) (str dest : ℕ) (div : UInt8) : Option ℤ := do
  let a ← getValueInt m str dest 1 div
  let b ← getValueInt m str dest 2 div
  let c ← getValueInt m str dest 3 div
  joinInt a b c

/-- `GetDateTimeFromString(str)`; `dest` as for `getValueInt`. -/
def getDateTimeFromString (m : Mem) (str dest : ℕ) : Option ℤ := do
  if (← m.strchr str 47).isSome then fieldsInt m str dest 47
  else if (← m.strchr str 92).isSome then fieldsInt m str dest 92
  else if (← m.strchr str 45).isSome then fieldsInt m str dest 45
  else if (← m.strchr str 58).isSome then fieldsInt m str dest 58
  else if (← m.strchr str 46).isSome then fieldsInt m str dest 46
  else m.atoi str 0

variable {m : Mem} {out src dest str : ℕ} {s u v w : List UInt8} {ch : UInt8} {num : ℤ}

/-! ## Fields of digits -/

theorem joinInt_eq {a b c : ℤ} (ha : 0 ≤ a) (hb : 0 ≤ b) (hc : 0 ≤ c)
    (h : a * 10000 + b * 100 + c < 2 ^ 31) : joinInt a b c = some (a * 10000 + b * 100 + c) := by
  rw [joinInt, checkedInt_eq (by omega) (by omega), checkedInt_eq (by omega) (by omega)]
  simp only [Option.bind_eq_bind, Option.bind_some]
  rw [checkedInt_eq (by omega) (by omega), Option.bind_some, checkedInt_eq (by omega) h]

/-- **A field of digits.** -/
theorem getValueInt_eq (hne : src ≠ dest) (hdest : (m dest).length = 30) (hv : m.IsStr src s)
    (h10 : 10 ∉ s) (hnum : 1 ≤ num) (hsize : s.length < 30)
    (hfield : ∀ c ∈ fieldAt ch (num - 1).toNat s, IsDigit c)
    (hint : digitsValue (fieldAt ch (num - 1).toNat s) < 2 ^ 31) :
    getValueInt m src dest num ch = some (digitsValue (fieldAt ch (num - 1).toNat s) : ℤ) := by
  have h32 : 32 ∉ fieldAt ch (num - 1).toNat s := notMem_of_isDigit hfield (by decide)
  have hlead : leadingSpaces (fieldAt ch (num - 1).toNat s) = 0 := by
    rw [leadingSpaces, List.length_eq_zero_iff, List.takeWhile_eq_nil_iff]
    intro hpos h
    exact h32 (of_decide_eq_true h ▸ List.getElem_mem hpos)
  have hsize : (s.length : ℤ) < 30 := by omega
  obtain ⟨m', hrun, -, hstr⟩ :=
    (gives_getValue_iff hne hv h10 hnum hsize (by omega)).2 (.inl hlead)
  rw [trim_of_notMem h32] at hstr
  rw [getValueInt, hrun, Option.bind_eq_bind, Option.bind_some, hstr.at_end.atoi hfield hint]

/-- A text of three fields of digits. -/
structure ThreeFields (ch : UInt8) (u v w s : List UInt8) : Prop where
  eq : s = u ++ [ch] ++ v ++ [ch] ++ w
  sep : ¬ IsDigit ch
  left : ∀ c ∈ u, IsDigit c
  mid : ∀ c ∈ v, IsDigit c
  right : ∀ c ∈ w, IsDigit c

namespace ThreeFields
variable (h : ThreeFields ch u v w s)
include h

theorem fieldAt_eq : fieldAt ch 0 s = u ∧ fieldAt ch 1 s = v ∧ fieldAt ch 2 s = w := by
  have hu := notMem_of_isDigit h.left h.sep
  have hv := notMem_of_isDigit h.mid h.sep
  have hw := notMem_of_isDigit h.right h.sep
  have hs : s = u ++ ch :: (v ++ ch :: w) := by rw [h.eq]; simp
  rw [hs]
  refine ⟨?_, ?_, ?_⟩
  · rw [fieldAt_append_cons hu, if_pos rfl]
  · rw [fieldAt_append_cons hu, if_neg (by decide), fieldAt_append_cons hv, if_pos (by decide)]
  · rw [fieldAt_append_cons hu, if_neg (by decide), fieldAt_append_cons hv, if_neg (by decide),
      fieldAt_last hw, if_pos (by decide)]

theorem mem_iff {c : UInt8} (hc : ¬ IsDigit c) : c ∈ s ↔ c = ch := by
  have hu := notMem_of_isDigit h.left hc
  have hv := notMem_of_isDigit h.mid hc
  have hw := notMem_of_isDigit h.right hc
  rw [h.eq]
  simp [hu, hv, hw]

/-- **Three fields are read.** -/
theorem fieldsInt_eq (hne : str ≠ dest) (hdest : (m dest).length = 30) (hstr : m.IsStr str s)
    (h10 : ch ≠ 10) (hlen : s.length < 30)
    (hint : (digitsValue u * 10000 + digitsValue v * 100 + digitsValue w : ℤ) < 2 ^ 31) :
    fieldsInt m str dest ch =
      some (digitsValue u * 10000 + digitsValue v * 100 + digitsValue w : ℤ) := by
  obtain ⟨hu, hv, hw⟩ := h.fieldAt_eq
  have hnl : 10 ∉ s := mt (h.mem_iff (by decide)).1 h10.symm
  have hget (num : ℤ) {x : List UInt8} (hnum : 1 ≤ num) (hx : fieldAt ch (num - 1).toNat s = x)
      (hdigits : ∀ c ∈ x, IsDigit c) (hx31 : digitsValue x < 2 ^ 31) :
      getValueInt m str dest num ch = some (digitsValue x : ℤ) := by
    subst hx
    exact getValueInt_eq hne hdest hstr hnl hnum hlen hdigits hx31
  -- one field after the other; unfolding all binds would multiply the values out
  rw [fieldsInt, hget 1 (by decide) hu h.left (by omega), Option.bind_eq_bind, Option.bind_some,
    hget 2 (by decide) hv h.mid (by omega), Option.bind_some,
    hget 3 (by decide) hw h.right (by omega), Option.bind_some,
    joinInt_eq (by omega) (by omega) (by omega) hint]

/-- **The separator is guessed**: a dash or a colon is the first that is
    found. -/
theorem getDateTimeFromString_eq (hstr : m.IsStr str s) (hch : ch = 45 ∨ ch = 58) :
    getDateTimeFromString m str dest = fieldsInt m str dest ch := by
  have hfind {c : UInt8} (hc : ¬ IsDigit c) : (s.findIdx? (· = c)).isSome = true ↔ c = ch := by
    rw [List.findIdx?_isSome, List.any_eq_true, ← h.mem_iff hc]
    simp
  have hskip {c : UInt8} (hc : ¬ IsDigit c) (hne : c ≠ ch) :
      ¬ (s.findIdx? (· = c)).isSome = true := mt (hfind hc).1 hne
  simp only [getDateTimeFromString, hstr.strchr, Option.bind_eq_bind, Option.bind_some]
  obtain rfl | rfl := hch
  · rw [if_neg (hskip (by decide) (by decide)), if_neg (hskip (by decide) (by decide)),
      if_pos ((hfind (by decide)).2 rfl)]
  · rw [if_neg (hskip (by decide) (by decide)), if_neg (hskip (by decide) (by decide)),
      if_neg (hskip (by decide) (by decide)), if_pos ((hfind (by decide)).2 rfl)]

end ThreeFields

/-! ## What is printed is read -/

theorem threeFields_print {k : ℕ} {a b c : ℤ} (ha : 0 ≤ a) (hb : 0 ≤ b) (hc : 0 ≤ c)
    (hch : ¬ IsDigit ch) :
    ThreeFields ch (printDecimal k a.toNat) (printDecimal 2 b.toNat) (printDecimal 2 c.toNat)
      (printInt k a ++ [ch] ++ printInt 2 b ++ [ch] ++ printInt 2 c) where
  eq := by rw [printInt_nonneg ha, printInt_nonneg hb, printInt_nonneg hc]
  sep := hch
  left := fun _ => isDigit_printDecimal
  mid := fun _ => isDigit_printDecimal
  right := fun _ => isDigit_printDecimal

/-- **Three numbers are read back.** -/
theorem getDateTime_print {k n : ℕ} {a b c : ℤ} (hk : k ≤ 6) (hch : ch = 45 ∨ ch = 58)
    (hne : out ≠ dest) (hdest : (m dest).length = 30)
    (hs : s = printInt k a ++ [ch] ++ printInt 2 b ++ [ch] ++ printInt 2 c)
    (ha : 0 ≤ a) (hb : 0 ≤ b) (hb' : b < 100) (hc : 0 ≤ c) (hc' : c < 100)
    (hint : a * 10000 + b * 100 + c < 2 ^ 31) (hn : s.length < n) (hsz : n ≤ (m out).length) :
    ∃ m', m.snprintf out n s = some (m', s.length) ∧
      getDateTimeFromString m' out dest = some (a * 10000 + b * 100 + c) := by
  have hdigit : ¬ IsDigit ch := by
    obtain rfl | rfl := hch
    · decide
    · decide
  have h10 : ch ≠ 10 := by
    rintro rfl
    exact absurd hch (by decide)
  have h : ThreeFields ch (printDecimal k a.toNat) (printDecimal 2 b.toNat)
      (printDecimal 2 c.toNat) s := hs ▸ threeFields_print ha hb hc hdigit
  have h0 : 0 ∉ s := by
    rw [h.mem_iff (by decide)]
    rintro rfl
    exact absurd hch (by decide)
  have hlen : s.length < 30 := by
    have hlena := length_printDecimal_le (n := a.toNat) hk (by decide) (by omega)
    have hlenb := length_printDecimal_le (n := b.toNat) (le_refl 2) (by decide) (by omega)
    have hlenc := length_printDecimal_le (n := c.toNat) (le_refl 2) (by decide) (by omega)
    rw [h.eq]
    simp only [List.length_append, List.length_singleton]
    omega
  obtain ⟨m', hrun, hsame, hstr⟩ := Mem.snprintf_isStr hn hsz h0
  have hdest' : (m' dest).length = 30 := by rw [hsame.eq dest hne.symm, hdest]
  have hread := h.fieldsInt_eq hne hdest' hstr h10 hlen
  rw [value_printDecimal, value_printDecimal, value_printDecimal, Int.toNat_of_nonneg ha,
    Int.toNat_of_nonneg hb, Int.toNat_of_nonneg hc] at hread
  exact ⟨m', hrun, by rw [h.getDateTimeFromString_eq hstr hch, hread hint]⟩

/-- **Dates and times are read back**: a date from 1 on as `FormatDate` prints
    it, and a time of day as `FormatTime` does. -/
theorem getDateTime_format (hne : out ≠ dest) (hdest : (m dest).length = 30) :
    (∀ date size : ℤ, 1 ≤ date → date < 2 ^ 31 → (dateText date).length < sizeT size →
      sizeT size ≤ (m out).length →
      ∃ m', formatDate m out size date = some m' ∧
        getDateTimeFromString m' out dest = some date) ∧
    ∀ time size : ℤ, 0 ≤ time → time ≤ 235959 →
      (partsText [58] (timeParts time)).length < sizeT size → sizeT size ≤ (m out).length →
      ∃ m', formatTime m out size time = some m' ∧
        getDateTimeFromString m' out dest = some time := by
  constructor
  · intro date size h1 hint hn hsz
    have h0 : 0 ≤ date := by omega
    have htext : dateText date = printInt 4 (date / 10000) ++ [45] ++
        printInt 2 (date / 100 % 100) ++ [45] ++ printInt 2 (date % 100) := by
      rw [dateText, Int.tdiv_eq_ediv_of_nonneg h0, Int.tdiv_eq_ediv_of_nonneg h0,
        Int.tmod_eq_emod_of_nonneg (by omega), Int.tmod_eq_emod_of_nonneg h0]
    obtain ⟨m', hrun, hread⟩ := getDateTime_print (by decide) (.inl rfl) hne hdest htext
      (by omega) (by omega) (by omega) (by omega) (by omega) (by omega) hn hsz
    refine ⟨m', ?_, ?_⟩
    · rw [formatDate, if_pos (by omega), hrun]
      rfl
    · rw [hread, Option.some_inj]
      omega
  · intro time size h0 hle hn hsz
    have hparts : timeParts time = (time / 10000 % 100, time / 100 % 100, time % 100) := by
      rw [timeParts, if_neg (by omega), if_neg (by omega), if_neg (by omega),
        Int.tdiv_eq_ediv_of_nonneg h0, Int.tdiv_eq_ediv_of_nonneg h0,
        Int.tmod_eq_emod_of_nonneg (by omega), Int.tmod_eq_emod_of_nonneg (by omega),
        Int.tmod_eq_emod_of_nonneg h0]
    have htext : partsText [58] (timeParts time) = printInt 2 (time / 10000 % 100) ++ [58] ++
        printInt 2 (time / 100 % 100) ++ [58] ++ printInt 2 (time % 100) := by
      rw [hparts, partsText]
    obtain ⟨m', hrun, hread⟩ := getDateTime_print (by decide) (.inr rfl) hne hdest htext
      (by omega) (by omega) (by omega) (by omega) (by omega) (by omega) hn hsz
    refine ⟨m', ?_, ?_⟩
    · rw [formatTime, formatTimeAndReturnSize, hrun]
      rfl
    · rw [hread, Option.some_inj]
      omega

/-- The largest date, and midnight. -/
theorem getDateTime_format_int :
    (∃ m', formatDate (fun _ => List.replicate 30 0) 0 30 (2 ^ 31 - 1) = some m' ∧
      getDateTimeFromString m' 0 1 = some (2 ^ 31 - 1)) ∧
    ∃ m', formatTime (fun _ => List.replicate 30 0) 0 30 0 = some m' ∧
      getDateTimeFromString m' 0 1 = some 0 := by
  have hfields := @getDateTime_format (fun _ => List.replicate 30 0) 0 1 (by decide) (by decide)
  exact ⟨hfields.1 _ _ (by decide) (by decide) (by decide) (by decide),
    hfields.2 _ _ (by decide) (by decide) (by decide) (by decide)⟩

end CppExperiment.STD
