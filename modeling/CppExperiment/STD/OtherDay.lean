/-
  `STD::GetOtherDay` in CommonTools/STD.cc: the date some days after or before
  a date in the form YYYYMMDD.

  The function counts the days from the start of the year, adds the span and
  goes through the months again, from January on if the sum is not negative,
  from December of the year before down if it is.

  * `forwardLoop_spec`, `backwardLoop_spec`: the month that each loop ends in.
  * `getOtherDay_iff`: the result is right iff the day looked for is not in
    January of the year of the date, and, if it is in an earlier year, neither
    in January nor the last day of its month.
-/
import CppExperiment.STD.Dates

namespace CppExperiment.STD

open Civil (Day monthDays)
open Pobo (CivilDay toDays isLeapYear Date)

/-! ## The function -/

/-- `IsRunnian(date)`, of a year -/
def isRunnian (date : ℤ) : Bool :=
  (date.tmod 4 == 0 && date.tmod 100 != 0) || date.tmod 400 == 0

def months : List ℤ := [31, 28, 31, 30, 31, 30, 31, 31, 30, 31, 30, 31]

def months1 : List ℤ := [31, 29, 31, 30, 31, 30, 31, 31, 30, 31, 30, 31]

/-- The table that `p` is set to for a year. -/
def monthsOf (year : ℤ) : List ℤ := if isRunnian year then months1 else months

/-- The loop for `nenddays >= 0`: the year, the index of the month and the days
    before it.  `none` outside the table, or if it has not ended after `n`
    rounds. -/
def forwardLoop (nenddays : ℤ) : (n : ℕ) → (ntempyear : ℤ) → (i : ℕ) → (nTemp : ℤ) →
    Option (ℤ × ℕ × ℤ)
  | 0, _, _, _ => none
  | n + 1, ntempyear, i, nTemp =>
    let p := monthsOf ntempyear
    if nenddays < 31 then some (ntempyear - 1, 11, nTemp)
    else do
      let d ← p[i]?
      let nTemp := nTemp + d
      let (ntempyear, i) := if i + 1 = 12 then (ntempyear + 1, 0) else (ntempyear, i + 1)
      -- `p` is still the table of the year before if the month is January
      let d ← p[i]?
      if nenddays - nTemp > d then forwardLoop nenddays n ntempyear i nTemp
      else return (ntempyear, i, nTemp)

/-- The loop for `nenddays < 0`: the year, the index of the month and the days
    from its start on. -/
def backwardLoop (nenddays : ℤ) : (n : ℕ) → (ntempyear : ℤ) → (i : ℕ) → (nTemp : ℤ) →
    Option (ℤ × ℕ × ℤ)
  | 0, _, _, _ => none
  | n + 1, ntempyear, i, nTemp => do
    let p := monthsOf ntempyear
    let i := i - 1
    let d ← p[i]?
    let nTemp := nTemp + d
    let (ntempyear, i) := if i = 0 then (ntempyear - 1, 12) else (ntempyear, i)
    if nTemp + nenddays < 0 then backwardLoop nenddays n ntempyear i nTemp
    else return (ntempyear, i, nTemp)

/-- `GetOtherDay(date, nSpan)` -/
def getOtherDay (date nSpan : ℤ) : Option ℤ := do
  let nPyear := date.tdiv 10000
  let nPmonth := (date - nPyear * 10000).tdiv 100
  let nPday := date - nPyear * 10000 - nPmonth * 100
  let nTemp ← monthLoop (monthsOf nPyear) (nPmonth - 1).toNat 0 0
  let nenddays := nTemp + nPday + nSpan
  -- each round of a loop takes a day off, at least
  if nenddays ≥ 0 then
    let (nDyear, i, nTemp) ← forwardLoop nenddays (nenddays.natAbs + 1) nPyear 0 0
    return nDyear * 10000 + (i + 1) * 100 + (nenddays - nTemp)
  else
    let (nDyear, i, nTemp) ← backwardLoop nenddays (nenddays.natAbs + 1) (nPyear - 1) 12 0
    return nDyear * 10000 + (i + 1) * 100 + (nenddays + nTemp)

/-! ## Months -/

theorem monthsOf_eq (year : ℤ) : monthsOf year = daysOfMon year := by
  have h : isRunnian year = isLeap year := Bool.or_comm _ _
  rw [monthsOf, daysOfMon, h]
  split_ifs <;> rfl

theorem monthsOf_getElem? (year : ℤ) {i : ℕ} (hi : i < 12) :
    (monthsOf year)[i]? = some (monthDays isLeapYear year (i + 1)) := by
  rw [monthsOf_eq, daysOfMon, isLeap_eq]
  interval_cases i <;> rfl

/-- The first of the month with the index `i`. -/
def monthStart (year : ℤ) (i : ℕ) : ℤ := toDays year (i + 1) 1

theorem toDays_monthStart (year day : ℤ) (i : ℕ) :
    toDays year (i + 1) day = monthStart year i + (day - 1) := by
  simp only [monthStart, toDays]
  ring

/-- From month to month. -/
theorem monthStart_succ {y : ℤ} (hy : 1 ≤ y) {i : ℕ} (hi : i < 11) :
    monthStart y (i + 1) = monthStart y i + monthDays isLeapYear y (i + 1) := by
  have hm : (1 : ℤ) ≤ i + 1 ∧ (i : ℤ) + 1 ≤ 12 := by omega
  have hlast := (Pobo.toDays_next (Pobo.fromMarch_of_year (c := Day.last isLeapYear y (i + 1) hm)
    hy)).2
  rw [Day.next_last hm (by omega)] at hlast
  change toDays y (i + 1 + 1) 1 = toDays y (i + 1) _ + 1 at hlast
  rw [toDays_monthStart y _ i] at hlast
  change toDays y ((i + 1 : ℕ) + 1) 1 = _
  push_cast
  rw [hlast]
  change monthStart y i + (monthDays isLeapYear y (i + 1) - 1) + 1 = _
  ring

/-- From December to January. -/
theorem monthStart_year {y : ℤ} (hy : 1 ≤ y) :
    monthStart (y + 1) 0 = monthStart y 11 + 31 := by
  have hlast := (Pobo.toDays_next (Pobo.fromMarch_of_year
    (c := Day.last isLeapYear y 12 (by omega)) hy)).2
  rw [Day.next_last_december] at hlast
  change toDays (y + 1) 1 1 = toDays y ((11 : ℕ) + 1) (monthDays isLeapYear y 12) + 1
    at hlast
  rw [toDays_monthStart, Civil.monthDays_december] at hlast
  change toDays (y + 1) ((0 : ℕ) + 1) 1 = _
  rw [Nat.cast_zero, zero_add, hlast]
  ring

/-! ## The loops -/

section
variable {e y T J : ℤ} {i k n : ℕ}

/-- A round of the first loop goes on to the next month. -/
theorem forwardLoop_round (he : 31 ≤ e) (hy : 1 ≤ y) (hi : i < 12) : ∃ y' i', 1 ≤ y' ∧ i' < 12 ∧
    monthStart y' i' = monthStart y i + monthDays isLeapYear y (i + 1) ∧ ∀ n T,
      forwardLoop e (n + 1) y i T =
        if e - (T + monthDays isLeapYear y (i + 1)) > monthDays isLeapYear y' (i' + 1) then
          forwardLoop e n y' i' (T + monthDays isLeapYear y (i + 1))
        else some (y', i', T + monthDays isLeapYear y (i + 1)) := by
  by_cases h12 : i + 1 = 12
  · obtain rfl : i = 11 := by omega
    refine ⟨y + 1, 0, by omega, by omega, monthStart_year hy, ?_⟩
    intro n T
    rw [forwardLoop, if_neg (not_lt.2 he), monthsOf_getElem? y hi]
    change (do let d ← (monthsOf y)[0]?; _) = _
    rw [monthsOf_getElem? y (by omega)]
    rfl
  · refine ⟨y, i + 1, hy, by omega, monthStart_succ hy (by omega), ?_⟩
    intro n T
    rw [forwardLoop, if_neg (not_lt.2 he), monthsOf_getElem? y hi, Option.bind_eq_bind,
      Option.bind_some, if_neg h12]
    change (do let d ← (monthsOf y)[i + 1]?; _) = _
    rw [monthsOf_getElem? y (by omega)]
    rfl

/-- **The first loop** ends in the month of the day with the number `e`,
    counted from 1 at the start of the year. -/
theorem forwardLoop_spec (he : 31 ≤ e) (hy : 1 ≤ y) (hi : i < 12)
    (hT : monthDays isLeapYear y (i + 1) < e - T) (hn : e - T ≤ n) : ∃ y' i', 1 ≤ y' ∧ i' < 12 ∧
      ∃ T', forwardLoop e n y i T = some (y', i', T') ∧
        T' - T = monthStart y' i' - monthStart y i ∧
        1 ≤ e - T' ∧ e - T' ≤ monthDays isLeapYear y' (i' + 1) := by
  induction n generalizing y i T with
  | zero =>
    have := @Civil.monthDays_ge isLeapYear y (i + 1)
    omega
  | succ n ih =>
    have hlen := @Civil.monthDays_ge isLeapYear y (i + 1)
    obtain ⟨y', i', hy', hi', hstart, hround⟩ := forwardLoop_round he hy hi
    rw [hround]
    split_ifs with h
    · obtain ⟨y'', i'', hy'', hi'', T', hrun, hT', hpos, hle⟩ := ih hy' hi' h (by omega)
      exact ⟨y'', i'', hy'', hi'', T', hrun, by omega, hpos, hle⟩
    · exact ⟨y', i', hy', hi', _, rfl, by omega, by omega, by omega⟩

/-- A round of the second loop goes back to the start of the month. -/
theorem backwardLoop_round (hk : k < 12) : backwardLoop e (n + 1) y (k + 1) T =
    if T + monthDays isLeapYear y (k + 1) + e < 0 then
      backwardLoop e n (if k = 0 then y - 1 else y) (if k = 0 then 12 else k)
        (T + monthDays isLeapYear y (k + 1))
    else some (if k = 0 then y - 1 else y, if k = 0 then 12 else k,
      T + monthDays isLeapYear y (k + 1)) := by
  rw [backwardLoop, Nat.add_sub_cancel, monthsOf_getElem? y hk]
  by_cases h0 : k = 0
  · subst h0; rfl
  · simp only [Option.bind_eq_bind, Option.bind_some, if_neg h0]
    rfl

/-- **The second loop**, within a year: it ends in the month of the day with
    the number `e`, or after it if this is the last of a month, and calls
    January the 13th month of the year before. -/
theorem backwardLoop_spec (hy : 1 ≤ y) (hk : k < 12)
    (hT : T + monthStart y k + monthDays isLeapYear y (k + 1) = J) (he : e + T < 0)
    (hJ : 0 ≤ J - monthStart y 0 + e) (hn : -(e + T) ≤ n) : ∃ k', k' < 12 ∧
      backwardLoop e n y (k + 1) T = some (if k' = 0 then y - 1 else y, if k' = 0 then 12 else k',
        J - monthStart y k') ∧
      0 ≤ e + (J - monthStart y k') ∧
      e + (J - monthStart y k') < monthDays isLeapYear y (k' + 1) := by
  induction k generalizing T n with
  | zero =>
    obtain ⟨n, rfl⟩ : ∃ m, n = m + 1 := ⟨n - 1, by omega⟩
    have hT1 : T + monthDays isLeapYear y ((0 : ℕ) + 1) = J - monthStart y 0 := by omega
    refine ⟨0, hk, ?_, by omega, by omega⟩
    rw [backwardLoop_round hk, hT1, if_neg (by omega)]
  | succ k ih =>
    obtain ⟨n, rfl⟩ : ∃ m, n = m + 1 := ⟨n - 1, by omega⟩
    have hlen := @Civil.monthDays_ge isLeapYear y ((k + 1 : ℕ) + 1)
    have hstart := monthStart_succ hy (i := k) (by omega)
    have hT1 : T + monthDays isLeapYear y ((k + 1 : ℕ) + 1) = J - monthStart y (k + 1) := by omega
    rw [backwardLoop_round hk, hT1, if_neg (Nat.succ_ne_zero k), if_neg (Nat.succ_ne_zero k)]
    split_ifs with h
    · exact ih (by omega) (by omega) (by omega) (by omega)
    · refine ⟨k + 1, hk, ?_, by omega, by omega⟩
      rw [if_neg (Nat.succ_ne_zero k), if_neg (Nat.succ_ne_zero k)]

end

/-! ## The date -/

/-- `nenddays`: the day looked for, counted from 1 at the start of the year. -/
def endDays (c : CivilDay) (nSpan : ℤ) : ℤ :=
  toDays c.year c.month c.day - monthStart c.year 0 + 1 + nSpan

/-- What comes before the loops. -/
theorem getOtherDay_eq (c : CivilDay) (hy : 1 ≤ c.year) (nSpan : ℤ) :
    getOtherDay (rq c) nSpan =
      if endDays c nSpan ≥ 0 then
        (forwardLoop (endDays c nSpan) ((endDays c nSpan).natAbs + 1) c.year 0 0).map fun r =>
          r.1 * 10000 + (r.2.1 + 1) * 100 + (endDays c nSpan - r.2.2)
      else
        (backwardLoop (endDays c nSpan) ((endDays c nSpan).natAbs + 1) (c.year - 1) 12 0).map
          fun r => r.1 * 10000 + (r.2.1 + 1) * 100 + (endDays c nSpan + r.2.2) := by
  have hyear := (rq_parts_long c (by omega)).1
  have hm := c.month_range
  have hd := c.day_range
  have hd31 := day_le c
  have hmonth : (rq c - c.year * 10000).tdiv 100 = c.month := by
    rw [show rq c - c.year * 10000 = c.month * 100 + c.day by unfold rq; omega,
      Int.tdiv_eq_ediv_of_nonneg (by omega)]
    omega
  have hday : rq c - c.year * 10000 - c.month * 100 = c.day := by unfold rq; omega
  obtain ⟨days, hdays, hsum⟩ := Option.bind_eq_some_iff.1 (daysOfYear_eq c hy)
  have hend : days + c.day + nSpan = endDays c nSpan := by
    have := Option.some.inj hsum
    unfold endDays monthStart
    rw [Nat.cast_zero, zero_add]
    omega
  simp only [getOtherDay, hyear, hmonth, hday, monthsOf_eq, hdays, Option.bind_eq_bind,
    Option.bind_some, hend]
  split_ifs
  · cases forwardLoop (endDays c nSpan) ((endDays c nSpan).natAbs + 1) c.year 0 0 <;> rfl
  · cases backwardLoop (endDays c nSpan) ((endDays c nSpan).natAbs + 1) (c.year - 1) 12 0 <;> rfl

/-- The day with the number `e` counted in a year is `t` if it is a day of the
    month `i` there. -/
theorem day_of_number {t : CivilDay} {y d : ℤ} {i : ℕ} (ht : Pobo.FromMarch t) (hy : 1 ≤ y)
    (hi : i < 12) (hd : 1 ≤ d ∧ d ≤ monthDays isLeapYear y (i + 1))
    (hn : toDays t.year t.month t.day = monthStart y i + (d - 1)) :
    t.year = y ∧ t.month = i + 1 ∧ t.day = d := by
  have h := Pobo.toDays_inj (d := ⟨y, i + 1, d, by omega, hd⟩) ht (Pobo.fromMarch_of_year hy)
    (by rw [hn]; exact (toDays_monthStart y d i).symm)
  rw [h]
  exact ⟨rfl, rfl, rfl⟩

/-- The day looked for is neither in January of the year of the date, nor in
    January or on the last day of a month of an earlier year. -/
def Reached (c t : CivilDay) : Prop :=
  ¬ (t.year = c.year ∧ t.month = 1) ∧
    (t.year < c.year → t.month ≠ 1 ∧ t.day ≠ monthDays isLeapYear t.year t.month)

section
variable {c t : CivilDay} {n : ℤ}

theorem year_le_of_monthStart {y : ℤ} (hy : 1 ≤ y) (ht : Pobo.FromMarch t)
    (h : monthStart y 0 ≤ toDays t.year t.month t.day) : y ≤ t.year := by
  have hfirst := Pobo.fromMarch_of_year (c := Day.first isLeapYear y ((0 : ℕ) + 1) (by simp)) hy
  exact year_le_of_rq_le ((Pobo.toDays_le_iff rq_lt_next hfirst ht).2 h)

/-- A date is not before the start of its year. -/
theorem monthStart_le (hy : 1 ≤ c.year) :
    monthStart c.year 0 ≤ toDays c.year c.month c.day := by
  have hm := c.month_range
  have hd := c.day_range
  have hfirst := Pobo.fromMarch_of_year
    (c := Day.first isLeapYear c.year ((0 : ℕ) + 1) (by simp)) hy
  refine (Pobo.toDays_le_iff rq_lt_next hfirst (Pobo.fromMarch_of_year hy)).1 ?_
  show c.year * 10000 + ((0 : ℕ) + 1) * 100 + 1 ≤ rq c
  unfold rq
  push_cast
  omega

theorem monthDays_january (y : ℤ) : monthDays isLeapYear y ((0 : ℕ) + 1) = 31 := rfl

/-- From the 32nd day of the year on. -/
theorem getOtherDay_later (hy : 1 ≤ c.year) (ht : Pobo.FromMarch t)
    (hn : toDays t.year t.month t.day = monthStart c.year 0 + (endDays c n - 1))
    (he : 32 ≤ endDays c n) : getOtherDay (rq c) n = some (rq t) ∧ Reached c t := by
  obtain ⟨y, i, hy', hi, T, hrun, hT, hpos, hle⟩ := forwardLoop_spec (e := endDays c n)
    (n := (endDays c n).natAbs + 1) (T := 0) (i := 0) (by omega) hy (by omega)
    (by rw [monthDays_january]; omega) (by omega)
  obtain ⟨hyear, hmonth, hday⟩ := day_of_number ht hy' hi ⟨hpos, hle⟩ (by omega)
  have hle := year_le_of_monthStart hy ht (by omega)
  rw [getOtherDay_eq c hy, if_pos (by omega), hrun, Option.map_some]
  refine ⟨?_, ?_, fun hlt => absurd hlt (not_lt.2 hle)⟩
  · rw [rq, hyear, hmonth, hday]
  · rintro ⟨h1, h2⟩
    -- January of the year has 31 days
    obtain rfl : i = 0 := by omega
    rw [← hyear, h1] at hT
    rw [← hyear, h1, monthDays_january] at *
    omega

/-- In January of the year, or the last day of the year before. -/
theorem getOtherDay_january (hy : 2 ≤ c.year) (ht : Pobo.FromMarch t)
    (hn : toDays t.year t.month t.day = monthStart c.year 0 + (endDays c n - 1))
    (he : 0 ≤ endDays c n ∧ endDays c n ≤ 31) :
    getOtherDay (rq c) n ≠ some (rq t) ∧ ¬ Reached c t := by
  have hlast := monthStart_year (y := c.year - 1) (by omega)
  rw [sub_add_cancel] at hlast
  by_cases h0 : endDays c n = 0
  · obtain ⟨hyear, hmonth, hday⟩ := day_of_number (y := c.year - 1) (i := 11) (d := 31) ht
      (by omega) (by omega) ⟨by norm_num, le_rfl⟩ (by omega)
    constructor
    · rw [getOtherDay_eq c (by omega), if_pos he.1, forwardLoop, if_pos (by omega), rq]
      intro h
      have := Option.some.inj h
      push_cast at this
      omega
    · rintro ⟨-, h⟩
      refine (h (by omega)).2 ?_
      rw [hyear, hmonth, hday]
      rfl
  · obtain ⟨hyear, hmonth, hday⟩ := day_of_number (y := c.year) (i := 0) (d := endDays c n) ht
      (by omega) (by omega) ⟨by omega, by rw [monthDays_january]; omega⟩ hn
    refine ⟨?_, fun h => h.1 ⟨hyear, by rw [hmonth]; rfl⟩⟩
    rw [getOtherDay_eq c (by omega), if_pos he.1]
    intro h
    by_cases h31 : endDays c n < 31
    · rw [forwardLoop, if_pos h31, rq] at h
      have := Option.some.inj h
      push_cast at this hmonth
      omega
    · -- the loop takes January off and leaves the day 0 of February
      obtain ⟨y, i, -, -, -, hround⟩ := forwardLoop_round (e := endDays c n) (y := c.year) (i := 0)
        (by omega) (by omega) (by omega)
      have hlen := @Civil.monthDays_ge isLeapYear y (i + 1)
      rw [hround, monthDays_january, if_neg (by omega), rq] at h
      have := Option.some.inj h
      push_cast at this hmonth
      omega

/-- A year has 365 days, at least. -/
theorem monthStart_sub_one {y : ℤ} (hy : 2 ≤ y) : 365 ≤ monthStart y 0 - monthStart (y - 1) 0 := by
  have h := toDays_january_succ (y := y - 1) (by omega)
  rw [sub_add_cancel] at h
  change 365 ≤ toDays y 1 1 - toDays (y - 1) 1 1
  split_ifs at h <;> omega

/-- What the loop backwards makes of a day in the year before: a day of a month
    there, from 0 on, January being the 13th month of the year before that. -/
theorem getOtherDay_backward (hy : 2 ≤ c.year) (he : endDays c n < 0 ∧ -363 < endDays c n) :
    ∃ k < 12, ∃ d, endDays c n + monthStart c.year 0 = monthStart (c.year - 1) k + d ∧ 0 ≤ d ∧
      d < monthDays isLeapYear (c.year - 1) (k + 1) ∧
      getOtherDay (rq c) n = some ((if k = 0 then c.year - 1 - 1 else c.year - 1) * 10000 +
        ((if k = 0 then 12 else k : ℕ) + 1) * 100 + d) := by
  have hlast := monthStart_year (y := c.year - 1) (by omega)
  rw [sub_add_cancel] at hlast
  have hyear365 := monthStart_sub_one hy
  obtain ⟨k, hk, hrun, hpos, hlt⟩ := backwardLoop_spec (e := endDays c n) (y := c.year - 1)
    (k := 11) (T := 0) (J := monthStart c.year 0) (n := (endDays c n).natAbs + 1) (by omega)
    (by omega) (by change 0 + _ + 31 = _; omega) (by omega) (by omega) (by omega)
  refine ⟨k, hk, _, by ring, hpos, hlt, ?_⟩
  rw [getOtherDay_eq c (by omega), if_neg (by omega), hrun, Option.map_some]

/-- The last day of a month of the year before: the loop has stopped a month
    late, before the day 0 of that month. -/
theorem getOtherDay_monthEnd {k : ℕ} (hy : 2 ≤ c.year) (ht : Pobo.FromMarch t) (hk : k < 11)
    (hn : toDays t.year t.month t.day = monthStart (c.year - 1) (k + 1) - 1) :
    (c.year - 1) * 10000 + ((k + 1 : ℕ) + 1) * 100 + 0 ≠ rq t ∧ ¬ Reached c t := by
  have hsucc := monthStart_succ (y := c.year - 1) (by omega) hk
  have hlen := @Civil.monthDays_ge isLeapYear (c.year - 1) (k + 1)
  obtain ⟨hyear, hmonth, hday⟩ := day_of_number (y := c.year - 1) (i := k) ht (by omega)
    (by omega) ⟨by omega, le_rfl⟩ (by omega)
  have hday31 := day_le t
  constructor
  · rw [rq]
    push_cast
    omega
  · rintro ⟨-, h⟩
    refine (h (by omega)).2 ?_
    rw [hyear, hmonth, hday]

/-- In the year before. -/
theorem getOtherDay_earlier (hy : 2 ≤ c.year) (ht : Pobo.FromMarch t)
    (hn : toDays t.year t.month t.day = monthStart c.year 0 + (endDays c n - 1))
    (he : endDays c n < 0 ∧ -363 < endDays c n) :
    getOtherDay (rq c) n = some (rq t) ↔ Reached c t := by
  obtain ⟨k, hk, d, hd, hpos, hlt, hrun⟩ := getOtherDay_backward hy he
  have hyear365 := monthStart_sub_one hy
  rw [hrun, Option.some.injEq]
  by_cases h0 : d = 0
  · subst h0
    obtain ⟨k, rfl⟩ : ∃ j, k = j + 1 := Nat.exists_eq_succ_of_ne_zero (by rintro rfl; omega)
    obtain ⟨hne, hnot⟩ := getOtherDay_monthEnd (k := k) hy ht (by omega) (by omega)
    rw [if_neg (Nat.succ_ne_zero k), if_neg (Nat.succ_ne_zero k)]
    exact iff_of_false hne hnot
  · obtain ⟨hyear, hmonth, hday⟩ := day_of_number (y := c.year - 1) (i := k) ht (by omega) hk
      ⟨by omega, hlt.le⟩ (by omega)
    by_cases hk0 : k = 0
    · -- in January of the year before the month is the 13th
      subst hk0
      refine iff_of_false ?_ ?_
      · rw [if_pos rfl, if_pos rfl, rq]
        push_cast at hmonth ⊢
        omega
      · rintro ⟨-, h⟩
        exact (h (by omega)).1 hmonth
    · refine iff_of_true ?_ ⟨?_, ?_⟩
      · rw [if_neg hk0, if_neg hk0, rq, hyear, hmonth, hday]
      · rintro ⟨h, -⟩
        omega
      · intro _
        refine ⟨by omega, ?_⟩
        rw [hyear, hmonth, hday]
        exact hlt.ne

end

/-- **`GetOtherDay`** gives the day `nSpan` days after a date (before it if
    `nSpan` is negative) iff that day is reached: it is not in January of the
    year of the date, and not in January or on the last day of a month of an
    earlier year. -/
theorem getOtherDay_iff (c : CivilDay) (hy : 3 ≤ c.year ∧ c.year ≤ 9999) (nSpan : ℤ)
    (hn : -364 < nSpan ∧ nSpan < 365) :
    getOtherDay (rq c) nSpan = some (rq (c.step nSpan)) ↔ Reached c (c.step nSpan) := by
  have hc := Pobo.fromMarch_of_year (c := c) (by omega)
  have hstart := monthStart_le (c := c) (by omega)
  have h2 : 2 * 365 ≤ monthStart c.year 0 := by
    change _ ≤ toDays c.year 1 1
    rw [toDays_january, Pobo.yearStart_nonneg (by omega)]
    omega
  obtain ⟨ht, hnum⟩ := Pobo.toDays_step hc nSpan (by omega)
  have hend : toDays (c.step nSpan).year (c.step nSpan).month (c.step nSpan).day =
      monthStart c.year 0 + (endDays c nSpan - 1) := by
    rw [hnum, endDays]
    ring
  have he : -363 < endDays c nSpan := by unfold endDays; omega
  rcases lt_or_ge (endDays c nSpan) 0 with hneg | hnonneg
  · exact getOtherDay_earlier (by omega) ht hend ⟨hneg, he⟩
  · rcases lt_or_ge (endDays c nSpan) 32 with h32 | h32
    · obtain ⟨h1, h2⟩ := getOtherDay_january (by omega) ht hend ⟨hnonneg, by omega⟩
      exact iff_of_false h1 h2
    · obtain ⟨h1, h2⟩ := getOtherDay_later (by omega) ht hend h32
      exact iff_of_true h1 h2

/-- Ten weeks before the leap day of 2024. -/
theorem getOtherDay_iff_leapDay :
    getOtherDay 20240229 (-70) = some (rq (Pobo.leapDay.step (-70))) :=
  (getOtherDay_iff Pobo.leapDay (by decide) (-70) (by decide)).2
    (by unfold Reached; decide +kernel)

/-- The 1st of January of 2024. -/
def newYear : CivilDay := { firstWeekday with year := 2024, day_range := by decide }

/-- One day on from there, `GetOtherDay` arrives at the 2nd of December before. -/
theorem getOtherDay_newYear : getOtherDay 20240101 1 = some 20231202 ∧
    getOtherDay (rq newYear) 1 ≠ some (rq (newYear.step 1)) := by
  decide

end CppExperiment.STD
