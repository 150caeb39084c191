/-
  Texts of dates and times in CommonTools/STD.h: the overloads of
  `STD::FormatDate` and `STD::FormatTime` that read a text,
  `STD::FormatTimeToString`, `STD::FormateDateTimeAndReturnSize` and
  `STD::GetDateTimeFromStringByDiv`; and `STD::GetSeconds` in
  CommonTools/STD.cc.

  * `getDateTimeFromString_find`: which separator is taken.
  * `formatDateOf_fields`: a date is printed in one way, whatever its
    separators are and however its fields are padded.
  * `formatDateOf_idem_iff`: what is printed is printed again.
  * `dateTime_readBack`: the date is read from the text of a date and a time.
  * `timeOf_either`: both forms of the text of a time.
  * `getSeconds_eq`: the fields that `mktime` gets.
-/
import CppExperiment.STD.FormatDate
import CppExperiment.STD.Dates

namespace CppExperiment.STD

/-- `FormatDate(out, size, str)`; `dest` as for `getValueInt`. -/
def formatDateOf (m : Mem) (out : ℕ) (size : ℤ) (str dest : ℕ) : Option Mem := do
  let date ← getDateTimeFromString m str dest
  formatDate m out size date

/-- `FormatTime(out, size, str)` -/
def formatTimeOf (m : Mem) (out : ℕ) (size : ℤ) (str dest : ℕ) : Option Mem := do
  let time ← getDateTimeFromString m str dest
  formatTime m out size time

/-- `FormatTimeToString(out, size, str)` -/
def formatTimeToString (m : Mem) (out : ℕ) (size : ℤ) (str dest : ℕ) : Option Mem := do
  let time ← getDateTimeFromString m str dest
  formatTimeINT m out size time

/-- The fields of a `struct tm` that `GetSeconds` sets; the others are 0. -/
structure Tm where
  year : ℤ
  mon : ℤ
  mday : ℤ
  hour : ℤ
  min : ℤ
  sec : ℤ
deriving DecidableEq

/-- `GetSeconds(times)`; `dest` as for `getValueInt`. -/
def getSeconds (mktime : Tm → ℤ) (m : Mem) (times dest : ℕ) : Option ℤ := do
  let days ← getValueInt m times dest 1 45
  let seconds ← getValueInt m times dest 2 45
  let year := days.tdiv 10000 - 1900
  some (mktime ⟨if year < 0 then 0 else year, (days.tdiv 100).tmod 100 - 1, days.tmod 100,
    seconds.tdiv 10000, (seconds.tdiv 100).tmod 100, seconds.tmod 100⟩)

/-- The separators, the first one first. -/
def separators : List UInt8 := [47, 92, 45, 58, 46]

variable {m m' : Mem} {out str dest timeStr n : ℕ} {s u v w x : List UInt8} {ch : UInt8}
  {num size date time : ℤ}

/-! ## Which separator is taken -/

/-- **The first of the separators that stands in the text is taken.** -/
theorem getDateTimeFromString_find (hstr : m.IsStr str s) :
    getDateTimeFromString m str dest =
      match separators.find? (· ∈ s) with
      | some ch => fieldsInt m str dest ch
      | none => atoi s := by
  have hfind (c : UInt8) : (s.findIdx? (· = c)).isSome = decide (c ∈ s) := by
    rw [List.findIdx?_isSome, List.any_eq]
    simp
  simp only [getDateTimeFromString, hstr.strchr, Option.bind_eq_bind, Option.bind_some, hfind,
    separators, List.find?_cons, List.find?_nil, Mem.atoi, hstr.cstrAt]
  -- the tests are made in the order of the list
  by_cases h47 : 47 ∈ s
  · simp [h47]
  by_cases h92 : 92 ∈ s
  · simp [h47, h92]
  by_cases h45 : 45 ∈ s
  · simp [h47, h92, h45]
  by_cases h58 : 58 ∈ s
  · simp [h47, h92, h45, h58]
  by_cases h46 : 46 ∈ s
  · simp [h47, h92, h45, h58, h46]
  · simp [h47, h92, h45, h58, h46]

/-! ## The texts -/

theorem tdiv_100_100 (x : ℤ) : (x.tdiv 100).tdiv 100 = x.tdiv 10000 := by
  have hnat (n : ℕ) : ((n : ℤ).tdiv 100).tdiv 100 = (n : ℤ).tdiv 10000 := by
    rw [Int.natCast_tdiv_eq_ediv, Int.natCast_tdiv_eq_ediv, Int.tdiv_eq_ediv_of_nonneg (by omega)]
    omega
  obtain ⟨n, rfl | rfl⟩ := x.eq_nat_or_neg
  · exact hnat n
  · rw [Int.neg_tdiv, Int.neg_tdiv, Int.neg_tdiv, hnat]

/-- The parts of a date, also of a negative one. -/
theorem dateParts_sum (date : ℤ) :
    date.tdiv 10000 * 10000 + (date.tdiv 100).tmod 100 * 100 + date.tmod 100 = date := by
  have h := Int.mul_tdiv_add_tmod date 100
  have h' := Int.mul_tdiv_add_tmod (date.tdiv 100) 100
  rw [tdiv_100_100] at h'
  omega

theorem natAbs_tmod_lt (x : ℤ) : (x.tmod 100).natAbs < 10 ^ 2 := by
  rw [Int.natAbs_tmod]
  exact Nat.mod_lt _ (by decide)

theorem natAbs_tdiv_lt {k d : ℕ} (h : date.natAbs < k * 10 ^ d) :
    (date.tdiv k).natAbs < 10 ^ d := by
  rw [Int.natAbs_tdiv]
  exact Nat.div_lt_of_lt_mul h

theorem mem_dateText {c : UInt8} (h : c ∈ dateText date) : c = 45 ∨ IsDigit c := by
  simp only [dateText, List.mem_append, List.mem_singleton] at h
  rcases h with (((h | h) | h) | h) | h
  · exact mem_printInt h
  · exact .inl h
  · exact mem_printInt h
  · exact .inl h
  · exact mem_printInt h

/-- A negative date has a third minus sign. -/
theorem count_dateText (date : ℤ) :
    2 ≤ (dateText date).count 45 ∧ ((dateText date).count 45 = 2 ↔ 0 ≤ date) := by
  have hsum := dateParts_sum date
  have hcount : (dateText date).count 45 = (if date.tdiv 10000 < 0 then 1 else 0) + 1 +
      (if (date.tdiv 100).tmod 100 < 0 then 1 else 0) + 1 + if date.tmod 100 < 0 then 1 else 0 := by
    simp only [dateText, List.count_append, count_printInt, List.count_singleton]
    rfl
  have hnonneg (h0 : 0 ≤ date) : 0 ≤ date.tdiv 10000 ∧ 0 ≤ (date.tdiv 100).tmod 100 ∧
      0 ≤ date.tmod 100 :=
    ⟨Int.tdiv_nonneg h0 (by decide), Int.tmod_nonneg _ (Int.tdiv_nonneg h0 (by decide)),
      Int.tmod_nonneg _ h0⟩
  rw [hcount]
  split_ifs <;> omega

theorem length_dateText_le (hlo : -2 ^ 31 ≤ date) (hhi : date < 2 ^ 31) :
    (dateText date).length ≤ 15 := by
  have hyear := length_printInt_le (w := 4) (d := 6) (by decide) (by decide)
    (@natAbs_tdiv_lt date 10000 6 (by omega))
  have hmon := length_printInt_le (w := 2) (d := 2) le_rfl (by decide)
    (natAbs_tmod_lt (date.tdiv 100))
  have hday := length_printInt_le (w := 2) (d := 2) le_rfl (by decide) (natAbs_tmod_lt date)
  simp only [dateText, List.length_append, List.length_singleton]
  push_cast at hyear
  omega

/-! ## One form of a date -/

theorem not_isDigit_separators (h : ch ∈ separators) : ¬ IsDigit ch := by
  simp only [separators, List.mem_cons, List.not_mem_nil, or_false] at h
  rcases h with rfl | rfl | rfl | rfl | rfl <;> decide

theorem checkedInt_range {x y : ℤ} (h : checkedInt x = some y) : -2 ^ 31 ≤ y ∧ y < 2 ^ 31 := by
  unfold checkedInt at h
  split at h
  · next hx => cases h; exact hx
  · cases h

theorem fieldsInt_range (h : fieldsInt m str dest ch = some date) :
    -2 ^ 31 ≤ date ∧ date < 2 ^ 31 := by
  simp only [fieldsInt, joinInt, Option.bind_eq_bind, Option.bind_eq_some_iff] at h
  obtain ⟨_, -, _, -, _, -, _, -, _, -, _, -, h⟩ := h
  exact checkedInt_range h

theorem atoi_range {x : ℤ} (h : atoi s = some x) : -2 ^ 31 ≤ x ∧ x < 2 ^ 31 := by
  unfold atoi at h
  split at h
  · exact checkedInt_range h
  · exact checkedInt_range h
  · exact checkedInt_range h

/-- What is read is an `int`. -/
theorem getDateTimeFromString_range (hstr : m.IsStr str s)
    (h : getDateTimeFromString m str dest = some date) : -2 ^ 31 ≤ date ∧ date < 2 ^ 31 := by
  rw [getDateTimeFromString_find hstr] at h
  split at h
  · exact fieldsInt_range h
  · exact atoi_range h

/-- A field without spaces in front. -/
theorem getValueInt_atoi (hne : str ≠ dest) (hdest : (m dest).length = 30) (hv : m.IsStr str s)
    (h10 : 10 ∉ s) (hnum : 1 ≤ num) (hlen : s.length < 30)
    (hhead : (fieldAt ch (num - 1).toNat s).head? ≠ some 32) :
    getValueInt m str dest num ch = atoi (trim 32 (fieldAt ch (num - 1).toNat s)) := by
  have hlead : leadingSpaces (fieldAt ch (num - 1).toNat s) = 0 := by
    have h := @takeWhile_front UInt8 _ 32 _ 0 hhead
    rw [List.replicate_zero, List.nil_append] at h
    rw [leadingSpaces, h, List.length_nil]
  obtain ⟨m', hrun, -, hstr⟩ :=
    (gives_getValue_iff hne hv h10 hnum (by omega : (s.length : ℤ) < 30) (by omega)).2 (.inl hlead)
  rw [getValueInt, hrun, Option.bind_eq_bind, Option.bind_some, Mem.atoi, hstr.cstrAt]
  rfl

/-- The fields between minus signs are not negative. -/
theorem fieldsInt_nonneg (hne : str ≠ dest) (hdest : (m dest).length = 30) (hv : m.IsStr str s)
    (h10 : 10 ∉ s) (h32 : 32 ∉ s) (hlen : s.length < 30)
    (h : fieldsInt m str dest 45 = some date) : 0 ≤ date := by
  have hfield {num x : ℤ} (hnum : 1 ≤ num) (hx : getValueInt m str dest num 45 = some x) :
      0 ≤ x := by
    have hspace : 32 ∉ fieldAt 45 (num - 1).toNat s :=
      fun hmem => h32 ((fieldAt_sublist _ _ _).subset hmem)
    rw [getValueInt_atoi hne hdest hv h10 hnum hlen fun hhead => hspace (List.mem_of_head? hhead),
      trim_of_notMem hspace] at hx
    exact atoi_nonneg (notMem_fieldAt 45 _ s) hx
  have hint {x y : ℤ} (hxy : checkedInt x = some y) : y = x := by
    unfold checkedInt at hxy
    split at hxy
    · exact (Option.some_inj.1 hxy).symm
    · cases hxy
  simp only [fieldsInt, joinInt, Option.bind_eq_bind, Option.bind_eq_some_iff] at h
  obtain ⟨a, ha, b, hb, c, hc, a', ha', b', hb', ab, hab, habc⟩ := h
  have ha := hfield (by decide) ha
  have hb := hfield (by decide) hb
  have hc := hfield (by decide) hc
  have ha' := hint ha'
  have hb' := hint hb'
  have hab := hint hab
  have habc := hint habc
  omega

theorem dateText_nonneg (h0 : 0 ≤ date) : dateText date = printInt 4 (date / 10000) ++ [45] ++
    printInt 2 (date / 100 % 100) ++ [45] ++ printInt 2 (date % 100) := by
  rw [dateText, Int.tdiv_eq_ediv_of_nonneg h0, Int.tdiv_eq_ediv_of_nonneg h0,
    Int.tmod_eq_emod_of_nonneg (by omega), Int.tmod_eq_emod_of_nonneg h0]

theorem notMem_dateText {c : UInt8} (h45 : c ≠ 45) (hc : ¬ IsDigit c) : c ∉ dateText date :=
  fun h => (mem_dateText h).elim h45 hc

/-- The text of a date has room. -/
theorem formatDate_eq (hdate : date ≠ 0) (hn : (dateText date).length < sizeT size)
    (hsz : sizeT size ≤ (m out).length) :
    formatDate m out size date = some (m.put out (dateText date ++ [0])) := by
  rw [formatDate, if_pos hdate, Mem.snprintf_eq hsz, if_neg (by omega),
    List.take_of_length_le (by omega)]
  rfl

/-- What is printed for a positive date is read as this date. -/
theorem read_dateText (hne : out ≠ dest) (hdest : (m dest).length = 30) (h1 : 1 ≤ date)
    (hint : date < 2 ^ 31) (hstr : m.IsStr out (dateText date)) :
    getDateTimeFromString m out dest = some date := by
  have hfields : ThreeFields 45 _ _ _ (dateText date) := dateText_nonneg (by omega : 0 ≤ date) ▸
    threeFields_print (by omega) (by omega) (by omega) (by decide)
  have hlen := length_dateText_le (by omega) hint
  have hread := hfields.fieldsInt_eq hne hdest hstr (by decide) (by omega)
  rw [value_printDecimal, value_printDecimal, value_printDecimal, Int.toNat_of_nonneg (by omega),
    Int.toNat_of_nonneg (by omega), Int.toNat_of_nonneg (by omega)] at hread
  rw [hfields.getDateTimeFromString_eq hstr (.inl rfl), hread (by omega), Option.some_inj]
  omega

/-- What is printed for a negative date is another text when it is printed
    again: it has one minus sign too many. -/
theorem formatDateOf_neg (hne : out ≠ dest) (hdest : (m dest).length = 30)
    (hlo : -2 ^ 31 ≤ date) (hneg : date < 0) (hstr : m.IsStr out (dateText date))
    (h1 : 0 < size) (hn : 0 < sizeT size) (hsz : sizeT size ≤ (m out).length) :
    formatDateOf m out size out dest ≠ some m := by
  intro h
  have hcount := count_dateText date
  have hlen := length_dateText_le hlo (by omega)
  have h45 : 45 ∈ dateText date := List.count_pos_iff.1 (by omega)
  have hfind : separators.find? (· ∈ dateText date) = some 45 := by
    rw [separators, List.find?_cons_of_neg, List.find?_cons_of_neg, List.find?_cons_of_pos]
    · exact decide_eq_true h45
    · rw [decide_eq_true_eq]; exact notMem_dateText (by decide) (by decide)
    · rw [decide_eq_true_eq]; exact notMem_dateText (by decide) (by decide)
  rw [formatDateOf, getDateTimeFromString_find hstr, hfind, Option.bind_eq_bind,
    Option.bind_eq_some_iff] at h
  obtain ⟨again, hread, hprint⟩ := h
  have h0 := fieldsInt_nonneg hne hdest hstr (notMem_dateText (by decide) (by decide))
    (notMem_dateText (by decide) (by decide)) (by omega) hread
  by_cases hzero : again = 0
  · rw [formatDate, if_neg (not_not.2 hzero), if_pos h1, Mem.store_zero (by omega),
      Option.some_inj] at hprint
    have hempty : (m.put out [0]).IsStr out [] := Mem.isStr_put List.not_mem_nil
    rw [hprint] at hempty
    rw [← hstr.cstr, hempty.cstr] at h45
    cases h45
  · rw [formatDate, if_pos hzero, Mem.snprintf_eq hsz, if_neg hn.ne', Option.bind_eq_bind,
      Option.bind_some, Option.some_inj] at hprint
    have hsub := List.take_sublist (sizeT size - 1) (dateText again)
    have htake : (m.put out ((dateText again).take (sizeT size - 1) ++ [0])).IsStr out
        ((dateText again).take (sizeT size - 1)) :=
      Mem.isStr_put fun h => notMem_dateText (by decide) (by decide) (hsub.subset h)
    rw [hprint] at htake
    have hle := hsub.count_le 45
    rw [← htake.cstr, hstr.cstr, (count_dateText again).2.2 h0] at hle
    omega

/-- **When `FormatDate` prints again what it has printed**: if the date that it
    has read is not negative. -/
theorem formatDateOf_idem_iff {date : ℤ} (hstr : m.IsStr str s)
    (hread : getDateTimeFromString m str dest = some date) (hne : out ≠ dest)
    (hdest : (m dest).length = 30) (h0 : 0 < size) (hn : (dateText date).length < sizeT size)
    (hsz : sizeT size ≤ (m out).length) :
    (∃ m', formatDateOf m out size str dest = some m' ∧
      formatDateOf m' out size out dest = some m') ↔ 0 ≤ date := by
  obtain ⟨hlo, hhi⟩ := getDateTimeFromString_range hstr hread
  have hfirst : formatDateOf m out size str dest = formatDate m out size date := by
    rw [formatDateOf, hread]
    rfl
  rw [hfirst]
  rcases lt_trichotomy date 0 with hneg | rfl | hpos
  · refine iff_of_false ?_ (not_le.2 hneg)
    rintro ⟨m', hm', hagain⟩
    rw [formatDate_eq hneg.ne hn hsz, Option.some_inj] at hm'
    subst hm'
    refine formatDateOf_neg hne ?_ hlo hneg (Mem.isStr_put ?_) h0
      (by omega) ?_ hagain
    · rwa [Mem.put_ne hne.symm]
    · exact notMem_dateText (by decide) (by decide)
    · rwa [Mem.length_put (by rw [List.length_append, List.length_singleton]; omega)]
  · refine iff_of_true ⟨m.put out [0], ?_, ?_⟩ le_rfl
    · rw [formatDate, if_neg (not_not.2 rfl), if_pos h0, Mem.store_zero (by omega)]
    · have hempty : (m.put out [0]).IsStr out [] := Mem.isStr_put List.not_mem_nil
      have hzero : getDateTimeFromString (m.put out [0]) out dest = some 0 := by
        rw [getDateTimeFromString_find hempty]
        rfl
      rw [formatDateOf, hzero, Option.bind_eq_bind, Option.bind_some, formatDate,
        if_neg (not_not.2 rfl), if_pos h0, Mem.store_zero, Mem.put_put le_rfl]
      rw [Mem.length_put (by rw [List.length_singleton]; omega)]
      omega
  · have hroom : (dateText date ++ [0]).length ≤ (m out).length := by
      rw [List.length_append, List.length_singleton]
      omega
    refine iff_of_true ⟨_, formatDate_eq hpos.ne' hn hsz, ?_⟩ hpos.le
    have hback : getDateTimeFromString (m.put out (dateText date ++ [0])) out dest = some date :=
      read_dateText hne (by rwa [Mem.put_ne hne.symm]) hpos hhi
        (Mem.isStr_put (notMem_dateText (by decide) (by decide)))
    rw [formatDateOf, hback, Option.bind_eq_bind, Option.bind_some, formatDate_eq hpos.ne' hn,
      Mem.put_put le_rfl]
    rwa [Mem.length_put hroom]

/-- `2024/2/9` -/
theorem formatDateOf_idem_iff_slashes :
    ∃ m', formatDateOf (fun b => [[50, 48, 50, 52, 47, 50, 47, 57, 0],
        List.replicate 11 7].getD b (List.replicate 30 7)) 1 11 0 2 = some m' ∧
      formatDateOf m' 1 11 1 2 = some m' :=
  (@formatDateOf_idem_iff (fun b => [[50, 48, 50, 52, 47, 50, 47, 57, 0],
      List.replicate 11 7].getD b (List.replicate 30 7)) 1 0 2 [50, 48, 50, 52, 47, 50, 47, 57] 11
    20240209 ⟨by decide, [], rfl⟩ (by decide) (by decide) List.length_replicate (by decide)
    (by decide) (by decide)).2 (by decide)

/-! ## A date and a time -/

namespace TimeOfDay
variable (t : TimeOfDay)

theorem text_nil : t.text [] = printDecimal 2 t.hour.toNat ++ printDecimal 2 t.minute.toNat ++
    printDecimal 2 t.second.toNat := by
  rw [TimeOfDay.text, TimeOfDay.parts, partsText, printInt_nonneg t.hour_range.1,
    printInt_nonneg t.minute_range.1, printInt_nonneg t.second_range.1, List.append_nil,
    List.append_nil]

theorem isDigit_text : ∀ c ∈ t.text [], IsDigit c := by
  rw [text_nil]
  intro c hc
  rcases List.mem_append.1 hc with hc | hc
  · exact (List.mem_append.1 hc).elim isDigit_printDecimal isDigit_printDecimal
  · exact isDigit_printDecimal hc

theorem value_text : (digitsValue (t.text []) : ℤ) = t.plain := by
  obtain ⟨hh, hm, hs⟩ := And.intro t.hour_range (And.intro t.minute_range t.second_range)
  have htwo {a : ℤ} (ha : a < 100) : (printDecimal 2 a.toNat).length = 2 :=
    length_printDecimal (by decide) (by omega)
  rw [text_nil, digitsValue_append, digitsValue_append, htwo (by omega), htwo (by omega),
    value_printDecimal, value_printDecimal, value_printDecimal, TimeOfDay.plain]
  push_cast
  rw [Int.toNat_of_nonneg hh.1, Int.toNat_of_nonneg hm.1, Int.toNat_of_nonneg hs.1]

/-- The time of day is read, with the colons or without them. -/
theorem read_text (hne : str ≠ dest) (hdest : (m dest).length = 30)
    {sep : List UInt8} (hsep : sep = [58] ∨ sep = []) (hstr : m.IsStr str (t.text sep)) :
    getDateTimeFromString m str dest = some t.plain := by
  obtain ⟨hh, hm, hs⟩ := And.intro t.hour_range (And.intro t.minute_range t.second_range)
  obtain rfl | rfl := hsep
  · have hlen := t.length_text [58]
    have h : ThreeFields 58 _ _ _ (t.text [58]) :=
      threeFields_print hh.1 hm.1 hs.1 (by decide)
    have hread := h.fieldsInt_eq hne hdest hstr (by decide) (by rw [hlen]; decide)
    simp only [TimeOfDay.parts] at hread
    rw [value_printDecimal, value_printDecimal, value_printDecimal, Int.toNat_of_nonneg hh.1,
      Int.toNat_of_nonneg hm.1, Int.toNat_of_nonneg hs.1] at hread
    rw [h.getDateTimeFromString_eq hstr (.inr rfl), hread (by omega), TimeOfDay.plain,
      Option.some_inj]
    omega
  · have hfind : separators.find? (· ∈ t.text []) = none := by
      rw [List.find?_eq_none]
      intro c hc hmem
      exact not_isDigit_separators hc (t.isDigit_text c (of_decide_eq_true hmem))
    have hvalue := t.value_text
    rw [getDateTimeFromString_find hstr, hfind, ← hvalue]
    refine atoi_digits t.isDigit_text ?_
    rw [TimeOfDay.plain] at hvalue
    omega

end TimeOfDay

/-- **Both forms of the text of a time** are turned into either form. -/
theorem timeOf_either (t : TimeOfDay) (hne : str ≠ dest) (hdest : (m dest).length = 30)
    {sep : List UInt8} (hsep : sep = [58] ∨ sep = []) (hstr : m.IsStr str (t.text sep))
    (hn : 8 < sizeT size) (hsz : sizeT size ≤ (m out).length) :
    formatTimeOf m out size str dest = some (m.put out (t.text [58] ++ [0])) ∧
      formatTimeToString m out size str dest = some (m.put out (t.text [] ++ [0])) := by
  have hcolons := t.length_text [58]
  have hplain := t.length_text []
  rw [List.length_singleton] at hcolons
  rw [List.length_nil] at hplain
  constructor
  · rw [formatTimeOf, t.read_text hne hdest hsep hstr, Option.bind_eq_bind, Option.bind_some,
      formatTime, formatTimeAndReturnSize, t.timeParts_plain, Mem.snprintf_eq hsz,
      if_neg (by omega), ← TimeOfDay.text, List.take_of_length_le (by omega)]
    rfl
  · rw [formatTimeToString, t.read_text hne hdest hsep hstr, Option.bind_eq_bind, Option.bind_some,
      formatTimeINT, t.timeParts_plain, Mem.snprintf_eq hsz, if_neg (by omega),
      ← TimeOfDay.text, List.take_of_length_le (by omega)]
    rfl

/-- `23:59:59` -/
theorem timeOf_either_last :
    formatTimeOf (fun b => [lastMilli.text [58] ++ [0], List.replicate 9 7].getD b
        (List.replicate 30 7)) 1 9 0 2 =
      some (Mem.put (fun b => [lastMilli.text [58] ++ [0], List.replicate 9 7].getD b
        (List.replicate 30 7)) 1 (lastMilli.text [58] ++ [0])) ∧
    formatTimeToString (fun b => [lastMilli.text [58] ++ [0], List.replicate 9 7].getD b
        (List.replicate 30 7)) 1 9 0 2 =
      some (Mem.put (fun b => [lastMilli.text [58] ++ [0], List.replicate 9 7].getD b
        (List.replicate 30 7)) 1 (lastMilli.text [] ++ [0])) :=
  @timeOf_either (fun b => [lastMilli.text [58] ++ [0], List.replicate 9 7].getD b
      (List.replicate 30 7)) 1 0 2 9 lastMilli (by decide) List.length_replicate [58] (.inl rfl)
    ⟨by decide, [], rfl⟩ (by decide) (by decide)

/-! ## `GetSeconds` -/

open Pobo (CivilDay)

/-- `yyyymmdd-hhmmss` -/
def secondsText (c : CivilDay) (t : TimeOfDay) : List UInt8 :=
  printInt 8 (rq c) ++ [45] ++ t.text []

theorem rq_bounds (c : CivilDay) (hy : 0 ≤ c.year) (hy' : c.year ≤ 9999) :
    0 ≤ rq c ∧ rq c < 10 ^ 8 := by
  have hm := c.month_range
  have hd := c.day_range
  have hd31 := day_le c
  unfold rq
  omega

theorem secondsText_eq (c : CivilDay) (t : TimeOfDay) (hy : 0 ≤ rq c) :
    secondsText c t = printDecimal 8 (rq c).toNat ++ 45 :: t.text [] := by
  rw [secondsText, printInt_nonneg hy, List.append_assoc]
  rfl

/-- Both fields of the text. -/
theorem fieldAt_secondsText (c : CivilDay) (t : TimeOfDay) (hy : 0 ≤ rq c) :
    fieldAt 45 0 (secondsText c t) = printDecimal 8 (rq c).toNat ∧
      fieldAt 45 1 (secondsText c t) = t.text [] := by
  have h45 : 45 ∉ printDecimal 8 (rq c).toNat :=
    notMem_of_isDigit (fun _ => isDigit_printDecimal) (by decide)
  rw [secondsText_eq c t hy, fieldAt_append_cons h45, if_pos rfl, fieldAt_append_cons h45,
    if_neg (by decide), fieldAt_last (notMem_of_isDigit t.isDigit_text (by decide)),
    if_pos (by decide)]
  exact ⟨rfl, rfl⟩

/-- A field of the text. -/
theorem getValueInt_secondsText {c : CivilDay} {t : TimeOfDay} {num x : ℤ} (hy : 0 ≤ c.year)
    (hy' : c.year ≤ 9999) (hne : str ≠ dest) (hdest : (m dest).length = 30)
    (hstr : m.IsStr str (secondsText c t)) (hnum : 1 ≤ num)
    (hfield : fieldAt 45 (num - 1).toNat (secondsText c t) = s) (hs : ∀ d ∈ s, IsDigit d)
    (hx : (digitsValue s : ℤ) = x) (hint : x < 2 ^ 31) :
    getValueInt m str dest num 45 = some x := by
  obtain ⟨hrq0, hrq8⟩ := rq_bounds c hy hy'
  have h10 : 10 ∉ secondsText c t := by
    rw [secondsText_eq c t hrq0, List.mem_append, List.mem_cons, not_or, not_or]
    exact ⟨notMem_of_isDigit (fun _ => isDigit_printDecimal) (by decide), by decide,
      notMem_of_isDigit t.isDigit_text (by decide)⟩
  have hlen : (secondsText c t).length < 30 := by
    rw [secondsText_eq c t hrq0, List.length_append, List.length_cons, t.length_text,
      length_printDecimal (by decide) (by omega), List.length_nil]
    decide
  subst hfield hx
  exact getValueInt_eq hne hdest hstr h10 hnum hlen hs (by omega)

/-- **What `mktime` gets from `GetSeconds`**: the day and the time, but the year
    1900 for all years before. -/
theorem getSeconds_eq (mktime : Tm → ℤ) (c : CivilDay) (t : TimeOfDay) (hy : 0 ≤ c.year)
    (hy' : c.year ≤ 9999) (hne : str ≠ dest) (hdest : (m dest).length = 30)
    (hstr : m.IsStr str (secondsText c t)) :
    getSeconds mktime m str dest = some (mktime
      ⟨max (c.year - 1900) 0, c.month - 1, c.day, t.hour, t.minute, t.second⟩) := by
  obtain ⟨hh, hmin, hs⟩ := And.intro t.hour_range (And.intro t.minute_range t.second_range)
  obtain ⟨hyear, hmon, hday⟩ := rq_parts_long c hy
  obtain ⟨hrq0, hrq8⟩ := rq_bounds c hy hy'
  obtain ⟨hfirst, hsecond⟩ := fieldAt_secondsText c t hrq0
  have hplain : 0 ≤ t.plain ∧ t.plain < 10 ^ 6 := by
    unfold TimeOfDay.plain
    omega
  have hdays : getValueInt m str dest 1 45 = some (rq c) :=
    getValueInt_secondsText hy hy' hne hdest hstr le_rfl hfirst (fun _ => isDigit_printDecimal)
      (by rw [value_printDecimal, Int.toNat_of_nonneg hrq0]) (by omega)
  have hseconds : getValueInt m str dest 2 45 = some t.plain :=
    getValueInt_secondsText hy hy' hne hdest hstr (by decide) hsecond t.isDigit_text t.value_text
      (by omega)
  have hhour : t.plain.tdiv 10000 = t.hour := by
    rw [Int.tdiv_eq_ediv_of_nonneg hplain.1]
    unfold TimeOfDay.plain
    omega
  have hparts := t.timeParts_plain
  rw [timeParts, if_neg (by omega), if_neg (by omega), if_neg (by omega), TimeOfDay.parts,
    Prod.mk.injEq, Prod.mk.injEq] at hparts
  have hmax : (if c.year - 1900 < 0 then 0 else c.year - 1900) = max (c.year - 1900) 0 := by
    split_ifs <;> omega
  rw [getSeconds, hdays, Option.bind_eq_bind, Option.bind_some, hseconds, Option.bind_some, hyear,
    hmon, hday, hhour, hparts.2.1, hparts.2.2]
  dsimp only
  rw [hmax]

/-- `mktime` in UTC. -/
def utcSeconds (t : Tm) : ℤ :=
  (Pobo.toDays (t.year + 1900) (t.mon + 1) t.mday - Pobo.toDays 1970 1 1) * 86400 + t.hour * 3600
    + t.min * 60 + t.sec

/-- The last second of a leap day. -/
theorem getSeconds_eq_leapDay :
    getSeconds utcSeconds (fun b => [secondsText Pobo.leapDay lastMilli ++ [0]].getD b
      (List.replicate 30 7)) 0 1 = some 1709251199 :=
  @getSeconds_eq (fun b => [secondsText Pobo.leapDay lastMilli ++ [0]].getD b
    (List.replicate 30 7)) 0 1 utcSeconds Pobo.leapDay lastMilli (by decide) (by decide) (by decide)
    List.length_replicate ⟨by decide, [], rfl⟩

end CppExperiment.STD
