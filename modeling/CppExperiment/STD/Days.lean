/-
  Distances between dates in CommonTools/STD.cc: `STD::days_of_year`,
  `STD::days_num` and `STD::DateMinus`, for dates in the form YYYYMMDD.

  `days_num` adds up month tables and the years between the two dates, which it
  counts with a `short`.

  * `days_num_eq`: on valid dates the result is that of the closed form of
    `pobo::Date`, both end days counted.
  * `date_minus_ne`: `DateMinus` is never the difference of its two dates.
-/
import CppExperiment.Pobo.Date

namespace CppExperiment.STD

open Pobo (CivilDay toDays isLeapYear)
open Pobo.Date (yearStart)

/-! ## The functions -/

/-- The test for a leap year in `days_of_year` and `days_num`. -/
def isLeap (year : ℤ) : Bool :=
  year.tmod 400 == 0 || (year.tmod 4 == 0 && year.tmod 100 != 0)

/-- `days_of_mon`, for a year -/
def daysOfMon (year : ℤ) : List ℤ :=
  [31, if isLeap year then 29 else 28, 31, 30, 31, 30, 31, 31, 30, 31, 30, 31]

/-- The loop of `days_of_year` over `k` months from the index `i` on; `none` if
    it reads outside the table. -/
def monthLoop (table : List ℤ) : (k i : ℕ) → (days : ℤ) → Option ℤ
  | 0, _, days => some days
  | k + 1, i, days => do
    let d ← table[i]?
    monthLoop table k (i + 1) (days + d)

/-- `days_of_year(year, mon, day)` -/
def daysOfYear (year mon day : ℤ) : Option ℤ := do
  let days ← monthLoop (daysOfMon year) (mon - 1).toNat 0 0
  return days + day

/-- The cast to `short`. -/
def toShort (n : ℤ) : ℤ := Int.bmod n (2 ^ 16)

/-- The loop of `days_num` over the years from `i` on; `none` if it has not
    ended after `n` rounds. -/
def yearLoop (endyear : ℤ) : (n : ℕ) → (i days : ℤ) → Option ℤ
  | 0, _, _ => none
  | n + 1, i, days =>
    if i < endyear then
      yearLoop endyear n (toShort (i + 1)) (days + if isLeap i then 366 else 365)
    else some days

/-- `days_num` after the exchange of the dates: `startrq` is not later. -/
def daysNumFrom (sign startrq endrq : ℤ) : Option ℤ := do
  let startyear := toShort (startrq.tdiv 10000)
  let endyear := toShort (endrq.tdiv 10000)
  let mon := toShort ((endrq.tmod 10000).tdiv 100)
  let day := toShort ((endrq.tmod 10000).tmod 100)
  let days ← daysOfYear endyear mon day
  let mon := toShort ((startrq.tmod 10000).tdiv 100)
  let day := toShort ((startrq.tmod 10000).tmod 100)
  let n ← daysOfYear startyear mon day
  if startyear = endyear then return (days - n + 1) * sign
  else
    let days := days + ((if isLeap startyear then 366 else 365) - n) + 1
    -- a `short` has taken all its values after 2 ^ 16 rounds
    let days ← yearLoop endyear (2 ^ 16) (toShort (startyear + 1)) days
    return days * sign

/-- `days_num(startrq, endrq)` -/
def daysNum (startrq endrq : ℤ) : Option ℤ :=
  if startrq > endrq then daysNumFrom (-1) endrq startrq else daysNumFrom 1 startrq endrq

/-- `DateMinus(date1, date2)`, where `today` is what `GetDate` makes of the
    clock -/
def dateMinus (today date1 date2 : ℤ) : Option ℤ :=
  let date2 := if date2 = 0 then today else date2
  daysNum date1 date2

/-! ## Years -/

theorem isLeap_eq (y : ℤ) : isLeap y = isLeapYear y := by
  rw [Bool.eq_iff_iff, Pobo.isLeapYear_iff]
  simp only [isLeap, Bool.or_eq_true, Bool.and_eq_true, beq_iff_eq, bne_iff_ne, ne_eq,
    Pobo.tmod_eq_zero]
  omega

theorem toShort_eq {n : ℤ} (h : 0 ≤ n) (h' : n < 2 ^ 15) : toShort n = n := by
  rw [toShort]
  exact Int.bmod_eq_of_le (by omega) (by omega)

/-- The 1st of January. -/
theorem toDays_january (y : ℤ) : toDays y 1 1 = yearStart (y - 1) + 306 := by
  have hm : (1 + 9 : ℤ).tmod 12 = 10 := by decide
  have hy : (10 : ℤ).tdiv 10 = 1 := by decide
  have hd : (10 * 306 + 5 : ℤ).tdiv 10 = 306 := by decide
  simp only [toDays, yearStart, hm, hy, hd]
  ring

theorem toDays_january_succ {y : ℤ} (hy : 1 ≤ y) :
    toDays (y + 1) 1 1 = toDays y 1 1 + if isLeap y then 366 else 365 := by
  have h := Pobo.yearStart_succ (y := y - 1) (by omega)
  rw [sub_add_cancel] at h
  rw [toDays_january, toDays_january, add_sub_cancel_right, h, isLeap_eq]
  ring

/-- **`days_of_year`** counts the days from the 1st of January on. -/
theorem daysOfYear_eq (c : CivilDay) (hy : 1 ≤ c.year) :
    daysOfYear c.year c.month c.day =
      some (toDays c.year c.month c.day - toDays c.year 1 1 + 1) := by
  obtain ⟨hm1, hm12⟩ := c.month_range
  have hstart := Pobo.yearStart_succ (y := c.year - 1) (by omega)
  rw [sub_add_cancel, ← isLeap_eq] at hstart
  rw [Pobo.toDays_eq, toDays_january]
  simp only [Pobo.compYear, Pobo.compDay, Pobo.compMonth, daysOfYear, daysOfMon]
  generalize c.month = m at *
  -- month by month: from March on the leap day is counted with the year
  interval_cases m <;> simp [monthLoop] <;> split_ifs at hstart ⊢ <;> omega

/-- The years between two dates. -/
theorem yearLoop_eq {endyear i days : ℤ} {n : ℕ} (hi : 1 ≤ i) (hie : i ≤ endyear)
    (he : endyear < 2 ^ 15) (hn : (endyear - i).toNat < n) :
    yearLoop endyear n i days = some (days + (toDays endyear 1 1 - toDays i 1 1)) := by
  induction n generalizing i days with
  | zero => omega
  | succ n ih =>
    rw [yearLoop]
    by_cases h : i < endyear
    · have hstep := toDays_january_succ hi
      rw [if_pos h, toShort_eq (by omega) (by omega), ih (by omega) (by omega) (by omega), hstep]
      congr 1
      ring
    · obtain rfl : i = endyear := by omega
      rw [if_neg h, sub_self, add_zero]

/-! ## Dates -/

/-- A date in the form YYYYMMDD. -/
def rq (c : CivilDay) : ℤ := c.year * 10000 + c.month * 100 + c.day

theorem day_le (c : CivilDay) : c.day ≤ 31 := (Pobo.monthDays_cases c).1

/-- The parts of a date. -/
theorem rq_parts (c : CivilDay) (hy : 1 ≤ c.year) (hy' : c.year < 2 ^ 15) :
    toShort ((rq c).tdiv 10000) = c.year ∧
      toShort (((rq c).tmod 10000).tdiv 100) = c.month ∧
      toShort (((rq c).tmod 10000).tmod 100) = c.day := by
  have hm := c.month_range
  have hd := c.day_range
  have hd31 := day_le c
  have h0 : 0 ≤ rq c := by unfold rq; omega
  have h1 : 0 ≤ rq c % 10000 := Int.emod_nonneg _ (by norm_num)
  rw [Int.tdiv_eq_ediv_of_nonneg h0, Int.tmod_eq_emod_of_nonneg h0,
    Int.tdiv_eq_ediv_of_nonneg h1, Int.tmod_eq_emod_of_nonneg h1]
  have hyear : rq c / 10000 = c.year := by unfold rq; omega
  have hmon : rq c % 10000 / 100 = c.month := by unfold rq; omega
  have hday : rq c % 10000 % 100 = c.day := by unfold rq; omega
  rw [hyear, hmon, hday]
  exact ⟨toShort_eq (by omega) hy', toShort_eq (by omega) (by omega),
    toShort_eq (by omega) (by omega)⟩

theorem daysNumFrom_eq {c d : CivilDay} (hc : 1 ≤ c.year) (hcd : c.year ≤ d.year)
    (hd : d.year < 2 ^ 15) (sign : ℤ) :
    daysNumFrom sign (rq c) (rq d) =
      some ((toDays d.year d.month d.day - toDays c.year c.month c.day + 1) * sign) := by
  obtain ⟨hcy, hcm, hcd'⟩ := rq_parts c hc (by omega)
  obtain ⟨hdy, hdm, hdd⟩ := rq_parts d (by omega) hd
  simp only [daysNumFrom, hcy, hcm, hcd', hdy, hdm, hdd, daysOfYear_eq c hc,
    daysOfYear_eq d (by omega), Option.bind_eq_bind, Option.bind_some]
  by_cases hy : c.year = d.year
  · rw [if_pos hy, hy]
    congr 1
    ring
  · rw [if_neg hy, toShort_eq (by omega) (by omega),
      yearLoop_eq (by omega) (by omega) hd (by omega), toDays_january_succ hc, Option.bind_some]
    congr 1
    ring

theorem rq_lt_next (c : CivilDay) : rq c < rq c.next := by
  have hm := c.month_range
  have hd := day_le c
  unfold rq Civil.Day.next
  split_ifs
  · show _ < c.year * 10000 + c.month * 100 + (c.day + 1)
    omega
  · show _ < c.year * 10000 + (c.month + 1) * 100 + 1
    omega
  · show _ < (c.year + 1) * 10000 + 1 * 100 + 1
    omega

/-- The form YYYYMMDD is in the order of the days. -/
theorem rq_le_iff {c d : CivilDay} (hc : 1 ≤ c.year) (hd : 1 ≤ d.year) :
    rq c ≤ rq d ↔ toDays c.year c.month c.day ≤ toDays d.year d.month d.day :=
  Pobo.toDays_le_iff rq_lt_next (Pobo.fromMarch_of_year hc) (Pobo.fromMarch_of_year hd)

theorem year_le_of_rq_le {c d : CivilDay} (h : rq c ≤ rq d) : c.year ≤ d.year := by
  have := c.month_range
  have := c.day_range
  have := d.month_range
  have := day_le d
  unfold rq at h
  omega

/-- **`days_num`** counts both end days, and says with its sign which comes
    first. -/
theorem daysNum_rq {c d : CivilDay} (hc : 1 ≤ c.year) (hc' : c.year < 2 ^ 15) (hd : 1 ≤ d.year)
    (hd' : d.year < 2 ^ 15) : daysNum (rq c) (rq d) =
      some (if rq c ≤ rq d then toDays d.year d.month d.day - toDays c.year c.month c.day + 1
        else -(toDays c.year c.month c.day - toDays d.year d.month d.day + 1)) := by
  unfold daysNum
  split_ifs with hlt hle hle
  · omega
  · rw [daysNumFrom_eq hd (year_le_of_rq_le (le_of_lt hlt)) hc', mul_neg_one]
  · rw [daysNumFrom_eq hc (year_le_of_rq_le hle) hd', mul_one]
  · omega

/-- **The two calendars agree on distances.**  For valid dates from the year 1
    to the year 32767, the first not later than the second, `days_num` is the
    difference of the `pobo::Date`s plus one; the other way round it has the
    opposite sign. -/
theorem days_num_eq (c d : CivilDay) (hc : 1 ≤ c.year) (hd : d.year ≤ 32767) (h : rq c ≤ rq d) :
    daysNum (rq c) (rq d) = some ((Pobo.Date.init d.year d.month d.day).diff
      (Pobo.Date.init c.year c.month c.day) + 1) ∧
    (rq c < rq d → daysNum (rq d) (rq c) = (daysNum (rq c) (rq d)).map (- ·)) := by
  have hcd := year_le_of_rq_le h
  have hforth := daysNum_rq hc (by omega) (d := d) (by omega) (by omega)
  rw [if_pos h] at hforth
  constructor
  · rw [hforth]
    rfl
  · intro hlt
    have hback := daysNum_rq (c := d) (by omega) (by omega) hc (by omega)
    rw [if_neg (not_le.2 hlt)] at hback
    rw [hforth, hback]
    rfl

/-- From the leap day of 2024 to the 1st of March of 2027. -/
theorem days_num_leapDay : daysNum 20240229 20270301 = some 1097 ∧
    daysNum 20270301 20240229 = some (-1097) := by
  obtain ⟨h1, h2⟩ := days_num_eq Pobo.leapDay ⟨2027, 3, 1, by decide, by decide⟩ (by decide)
    (by decide) (by decide)
  have h3 := h2 (by decide)
  rw [h1] at h3
  exact ⟨h1, h3⟩

/-- **`DateMinus`** of valid dates is a day count with the wrong sign, both end
    days included: it never is the difference of the two dates, never 0, and
    positive exactly when the first date is not later. -/
theorem date_minus_ne (today : ℤ) (c d : CivilDay) (hc : 1 ≤ c.year ∧ c.year ≤ 9999)
    (hd : 1 ≤ d.year ∧ d.year ≤ 9999) :
    ∃ n, dateMinus today (rq c) (rq d) = some n ∧
      n ≠ (Pobo.Date.init c.year c.month c.day).diff (Pobo.Date.init d.year d.month d.day) ∧
      n ≠ 0 ∧ (0 < n ↔ ¬ rq d < rq c) := by
  have hd0 : rq d ≠ 0 := by
    have := d.month_range
    have := d.day_range
    unfold rq
    omega
  have hnum := daysNum_rq hc.1 (by omega) hd.1 (by omega)
  have hle := rq_le_iff hc.1 hd.1
  rw [dateMinus, if_neg hd0, hnum]
  refine ⟨_, rfl, ?_⟩
  change _ ≠ toDays c.year c.month c.day - toDays d.year d.month d.day ∧ _
  split_ifs with h
  · have := hle.1 h
    omega
  · have := mt hle.2 h
    omega

/-- The day after the leap day of 2024, and the leap day. -/
theorem date_minus_ne_leapDay : ∃ n, dateMinus 0 20240301 20240229 = some n ∧ n ≠ 1 := by
  obtain ⟨n, hn, hne, -⟩ := date_minus_ne 0 ⟨2024, 3, 1, by decide, by decide⟩ Pobo.leapDay
    (by decide) (by decide)
  exact ⟨n, hn, hne⟩

/-- One date, taken from itself. -/
theorem date_minus_self : dateMinus 0 20240229 20240229 ≠
    some ((Pobo.Date.init 2024 2 29).diff (Pobo.Date.init 2024 2 29)) := by decide

end CppExperiment.STD
