/-
  Neighbouring dates and weekdays in CommonTools/STD.cc: `STD::getnextdate`,
  `getpreviousrq` and `STD::getweek`, for dates in the form YYYYMMDD.

  `getpreviousrq` keeps its month table in a static array of the file, whose
  second entry it writes before it reads the table.

  * `neighbours_eq`: the two functions give the next and the previous day, as
    `pobo::Date` does, and undo each other.
  * `getweek_weekday`: `getweek` counts on from day to day, and its remainder
    by 7 is the weekday of Zeller's formula.
-/
import CppExperiment.STD.Days

namespace CppExperiment.STD

open Civil (Day monthDays)
open Pobo (CivilDay toDays isLeapYear Date)

/-! ## The functions -/

/-- `table[i]`; `none` outside the table. -/
def entry (table : List ℤ) (i : ℤ) : Option ℤ := if 0 ≤ i then table[i.toNat]? else none

/-- `STD::getnextdate(rq)` -/
def getnextdate (rq : ℤ) : Option ℤ := do
  let year := rq.tdiv 10000
  let mon := (rq.tdiv 100).tmod 100
  let day := rq.tmod 100
  let d ← entry (daysOfMon year) (mon - 1)
  if day < d then return rq + 1
  else if mon < 12 then return year * 10000 + 100 * (mon + 1) + 1
  else return (year + 1) * 10000 + 101

/-- The static array `days_of_mon`: only its entry for February is ever
    written. -/
structure MonTable where
  entries : List ℤ
  lengths : ∃ february, entries = [31, february, 31, 30, 31, 30, 31, 31, 30, 31, 30, 31]

/-- The initializer of `days_of_mon`. -/
def MonTable.init : MonTable := ⟨[31, 28, 31, 30, 31, 30, 31, 31, 30, 31, 30, 31], 28, rfl⟩

/-- `days_of_mon[1] = days` -/
def MonTable.setFebruary (table : MonTable) (days : ℤ) : MonTable :=
  ⟨table.entries.set 1 days, days, by obtain ⟨_, february, rfl⟩ := table; rfl⟩

/-- `getpreviousrq(rq)`, with the static array -/
def getpreviousrq (table : MonTable) (rq : ℤ) : MonTable × Option ℤ :=
  let year := toShort (rq.tdiv 10000)
  let mon := toShort (rq.tmod 10000)
  let day := toShort (mon.tmod 100)
  let mon := mon.tdiv 100
  let table := table.setFebruary (if isLeap year then 29 else 28)
  (table,
    if day > 1 then some (rq - 1)
    else if mon > 1 then do
      let d ← entry table.entries (mon - 2)
      return year * 10000 + 100 * (mon - 1) + d
    else some ((year - 1) * 10000 + 1231))

/-- `STD::getweek(date)` -/
def getweek (date : ℤ) : Option ℤ :=
  if date < 19800101 then some 2
  else do
    let n ← daysNum 19800101 date
    return n + 1

/-! ## Month tables -/

/-- The table for a year has the lengths of its months. -/
theorem entry_daysOfMon {year mon : ℤ} (h : 1 ≤ mon ∧ mon ≤ 12) :
    entry (daysOfMon year) (mon - 1) = some (monthDays isLeapYear year mon) := by
  obtain ⟨h1, h12⟩ := h
  rw [daysOfMon, isLeap_eq]
  interval_cases mon <;> rfl

/-- Whatever it was written for before, the table is that of the year. -/
theorem setFebruary_entries (table : MonTable) (year : ℤ) :
    (table.setFebruary (if isLeap year then 29 else 28)).entries = daysOfMon year := by
  obtain ⟨_, february, rfl⟩ := table
  rfl

/-! ## Neighbours -/

/-- The parts of a date, as `getnextdate` takes them. -/
theorem rq_parts_long (c : CivilDay) (hy : 0 ≤ c.year) : (rq c).tdiv 10000 = c.year ∧
    ((rq c).tdiv 100).tmod 100 = c.month ∧ (rq c).tmod 100 = c.day := by
  have hm := c.month_range
  have hd := c.day_range
  have hd31 := day_le c
  have h0 : 0 ≤ rq c := by unfold rq; omega
  rw [Int.tdiv_eq_ediv_of_nonneg h0, Int.tdiv_eq_ediv_of_nonneg h0, Int.tmod_eq_emod_of_nonneg h0,
    Int.tmod_eq_emod_of_nonneg (by omega)]
  unfold rq
  omega

theorem getnextdate_rq (c : CivilDay) (hy : 0 ≤ c.year) :
    getnextdate (rq c) = some (rq c.next) := by
  obtain ⟨hyear, hmon, hday⟩ := rq_parts_long c hy
  simp only [getnextdate, hyear, hmon, hday, entry_daysOfMon c.month_range, Option.bind_eq_bind,
    Option.bind_some]
  unfold Day.next
  split_ifs with hd hm
  · show some (rq c + 1) = some (c.year * 10000 + c.month * 100 + (c.day + 1))
    rw [rq, add_assoc]
  · show some _ = some (c.year * 10000 + (c.month + 1) * 100 + 1)
    rw [mul_comm 100]
  · show some _ = some ((c.year + 1) * 10000 + 1 * 100 + 1)
    rw [add_assoc]
    norm_num

theorem getpreviousrq_rq (table : MonTable) (c : CivilDay) (hy : 1 ≤ c.year)
    (hy' : c.year < 2 ^ 15) : (getpreviousrq table (rq c)).2 = some (rq c.prev) := by
  have hm := c.month_range
  have hd := c.day_range
  have hd31 := day_le c
  have h0 : 0 ≤ rq c := by unfold rq; omega
  have hyear : toShort ((rq c).tdiv 10000) = c.year := (rq_parts c hy hy').1
  have hmod : toShort ((rq c).tmod 10000) = c.month * 100 + c.day := by
    rw [Int.tmod_eq_emod_of_nonneg h0,
      show rq c % 10000 = c.month * 100 + c.day by unfold rq; omega,
      toShort_eq (by omega) (by omega)]
  have hday : toShort ((c.month * 100 + c.day).tmod 100) = c.day := by
    rw [Int.tmod_eq_emod_of_nonneg (by omega),
      show (c.month * 100 + c.day) % 100 = c.day by omega, toShort_eq (by omega) (by omega)]
  have hmon : (c.month * 100 + c.day).tdiv 100 = c.month := by
    rw [Int.tdiv_eq_ediv_of_nonneg (by omega)]; omega
  simp only [getpreviousrq, hyear, hmod, hday, hmon, setFebruary_entries]
  unfold Day.prev
  by_cases hd1 : 1 < c.day
  · rw [if_pos hd1, dif_pos hd1]
    show some (rq c - 1) = some (c.year * 10000 + c.month * 100 + (c.day - 1))
    rw [rq, add_sub_assoc]
  · rw [if_neg hd1, dif_neg hd1]
    by_cases hm1 : 1 < c.month
    · rw [if_pos hm1, dif_pos hm1, show c.month - 2 = c.month - 1 - 1 by omega,
        entry_daysOfMon (by omega)]
      show some _ = some (c.year * 10000 + (c.month - 1) * 100 + monthDays isLeapYear c.year _)
      rw [mul_comm 100]
    · rw [if_neg hm1, dif_neg hm1]
      show some _ = some ((c.year - 1) * 10000 + 12 * 100 + monthDays isLeapYear (c.year - 1) 12)
      rw [Civil.monthDays_december, add_assoc]
      norm_num

theorem year_next (c : CivilDay) : c.year ≤ c.next.year ∧ c.next.year ≤ c.year + 1 := by
  unfold Day.next
  split_ifs
  · exact ⟨le_rfl, by show c.year ≤ c.year + 1; omega⟩
  · exact ⟨le_rfl, by show c.year ≤ c.year + 1; omega⟩
  · exact ⟨by show c.year ≤ c.year + 1; omega, le_rfl⟩

theorem year_prev (c : CivilDay) : c.year - 1 ≤ c.prev.year := by
  unfold Day.prev
  split_ifs
  · show c.year - 1 ≤ c.year; omega
  · show c.year - 1 ≤ c.year; omega
  · exact le_rfl

/-- The days from the year 1 on have positive numbers. -/
theorem toDays_pos {c : CivilDay} (hy : 1 ≤ c.year) : 0 < toDays c.year c.month c.day := by
  have h1 : toDays 1 1 1 = 306 := by decide
  have hle := (rq_le_iff (c := ⟨1, 1, 1, by decide, by decide⟩) le_rfl hy).1 (by
    have := c.month_range
    have := c.day_range
    unfold rq
    show (1 * 10000 + 1 * 100 + 1 : ℤ) ≤ _
    omega)
  change toDays 1 1 1 ≤ _ at hle
  omega

/-- **Neighbours.**  Whatever the static array has been used for, `getnextdate`
    and `getpreviousrq` give the dates of `pobo::Date` plus and minus one, and
    undo each other. -/
theorem neighbours_eq (table : MonTable) (c : CivilDay) (hy : 1 ≤ c.year) (hy' : c.year ≤ 32766) :
    let d := Date.init c.year c.month c.day
    getnextdate (rq c) = some (rq c.next) ∧ (d.add 1).Shows c.next ∧
      (getpreviousrq table (rq c)).2 = some (rq c.prev) ∧ (d.sub 1).Shows c.prev ∧
      (do let r ← getnextdate (rq c); (getpreviousrq table r).2) = some (rq c) ∧
      (do let r ← (getpreviousrq table (rq c)).2; getnextdate r) = some (rq c) := by
  intro d
  have hc := Pobo.fromMarch_of_year hy
  have hnum : 0 < d.days := toDays_pos hy
  obtain ⟨hn, hn'⟩ := year_next c
  have hp := year_prev c
  have hnext := getnextdate_rq c (by omega)
  have hprev := getpreviousrq_rq table c hy (by omega)
  refine ⟨hnext, Pobo.fromDays_step hc d.copy 1 ?_, hprev, Pobo.fromDays_step hc d.copy (-1) ?_,
    ?_, ?_⟩
  · show 0 ≤ d.days + 1
    omega
  · show 0 ≤ d.days + -1
    omega
  · rw [hnext, Option.bind_eq_bind, Option.bind_some,
      getpreviousrq_rq table c.next (by omega) (by omega), Day.prev_next]
  · rw [hprev, Option.bind_eq_bind, Option.bind_some, getnextdate_rq c.prev (by omega),
      Day.next_prev]

/-- The leap day of 2024 in between. -/
theorem neighbours_eq_leapDay : getnextdate 20240229 = some 20240301 ∧
    (getpreviousrq .init 20240229).2 = some 20240228 := by
  obtain ⟨hn, -, hp, -⟩ := neighbours_eq .init Pobo.leapDay (by decide) (by decide)
  exact ⟨hn, hp⟩

/-! ## Weekdays -/

/-- The leap days up to the year `y`, by its century and the year in it. -/
theorem leaps_eq (y : ℤ) :
    y * 365 + y / 4 - y / 100 + y / 400 =
      36524 * (y / 100) + 365 * (y % 100) + y % 100 / 4 + y / 100 / 4 := by
  have h4 : y / 4 = 25 * (y / 100) + y % 100 / 4 := by omega
  have h400 : y / 400 = y / 100 / 4 := by omega
  have hy : y = 100 * (y / 100) + y % 100 := by omega
  rw [h4, h400]
  omega

/-- **Weekdays** by the number of days. -/
theorem zeller_eq {c : CivilDay} (hc : Pobo.FromMarch c) :
    Civil.zeller c.year c.month c.day = (toDays c.year c.month c.day + 3) % 7 := by
  obtain ⟨hm1, hm12⟩ := c.month_range
  unfold Pobo.FromMarch at hc
  rw [Pobo.toDays_eq, Pobo.yearStart_nonneg hc, leaps_eq]
  unfold Civil.zeller Pobo.compDay Pobo.compYear Pobo.compMonth
  generalize c.month = m at *
  interval_cases m <;> simp <;> omega

/-- The first day that `getweek` counts. -/
def firstWeekday : CivilDay := ⟨1980, 1, 1, by decide, by decide⟩

/-- **`getweek`** counts the days from the 1st of January of 1980, a Tuesday. -/
theorem getweek_rq {c : CivilDay} (h : rq firstWeekday ≤ rq c) (hy : c.year < 2 ^ 15) :
    getweek (rq c) = some (toDays c.year c.month c.day - toDays 1980 1 1 + 2) := by
  have hyear : 1980 ≤ c.year := year_le_of_rq_le h
  have hnum := daysNum_rq (c := firstWeekday) (d := c) (by decide) (by decide) (by omega) hy
  rw [if_pos h] at hnum
  have hlt : ¬ rq c < 19800101 := not_lt.2 h
  rw [getweek, if_neg hlt]
  change (do let n ← daysNum (rq firstWeekday) (rq c); return n + 1) = _
  rw [hnum, Option.bind_eq_bind, Option.bind_some]
  show some (_ + 1 + 1) = _
  rw [add_assoc]
  rfl

/-- **Weekdays.**  From 1980 on, the remainder by 7 of what `getweek` returns is
    the weekday of the date, and the next date has the next number. -/
theorem getweek_weekday (c : CivilDay) (h : 19800101 ≤ rq c) (hy : c.year ≤ 32766) :
    ∃ n, getweek (rq c) = some n ∧ n.tmod 7 = Civil.zeller c.year c.month c.day ∧
      (do let r ← getnextdate (rq c); getweek r) = some (n + 1) := by
  have hyear : 1980 ≤ c.year := year_le_of_rq_le (c := firstWeekday) h
  have hc := Pobo.fromMarch_of_year (c := c) (by omega)
  have hle : toDays 1980 1 1 ≤ toDays c.year c.month c.day :=
    (rq_le_iff (c := firstWeekday) (by decide) (by omega)).1 h
  have hfirst : toDays 1980 1 1 = 723120 := by decide
  refine ⟨_, getweek_rq h (by omega), ?_, ?_⟩
  · rw [Int.tmod_eq_emod_of_nonneg (by omega), zeller_eq hc]
    omega
  · have hlt := rq_lt_next c
    have hyn := year_next c
    rw [getnextdate_rq c (by omega), Option.bind_eq_bind, Option.bind_some,
      getweek_rq (h.trans hlt.le) (by omega), (Pobo.toDays_next hc).2]
    congr 1
    omega

/-- The leap day of 2024 was a Thursday. -/
theorem getweek_weekday_leapDay : ∃ n, getweek 20240229 = some n ∧ n.tmod 7 = 4 := by
  obtain ⟨n, hn, h7, -⟩ := getweek_weekday Pobo.leapDay (by decide) (by decide)
  exact ⟨n, hn, h7⟩

end CppExperiment.STD
