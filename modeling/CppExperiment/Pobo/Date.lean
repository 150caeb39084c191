/-
  `pobo::Date` (CommonTools/PoboDate.h): dates with a cached day number.

  Day 0 is the 1st of March of the year 0.  The computational year starts in
  March, so that the leap day is its last day.  The members are C `int`s;
  they are integers here, for inputs on which no operation overflows.  Division
  and remainder round towards zero.

  * `fromDays_toDays`: `from_days` inverts `to_days` on valid dates, from day 0
    on.  The estimated year is never too small and at most one too large
    (`estimate_bounds`).
  * `add_thisYearDays`: `this_year_days` leads from New Year to New Year.
  * `arithmetic_steps`: the operators `+`, `+=`, `-` and `-=` step from day to
    day.
-/
import CppExperiment.Lib.Civil

namespace CppExperiment.Pobo

open Civil (Day monthDays)

/-- `is_leap_year`, of the year -/
def isLeapYear (year : ℤ) : Bool :=
  year.tmod 4 == 0 && (year.tmod 100 != 0 || year.tmod 400 == 0)

/-- `to_days`, of the members -/
def toDays (year month day : ℤ) : ℤ :=
  let m := (month + 9).tmod 12
  let y := year - m.tdiv 10
  y * 365 + y.tdiv 4 - y.tdiv 100 + y.tdiv 400 + (m * 306 + 5).tdiv 10 + (day - 1)

/-- The members of `pobo::Date`; `days` is the cached day number. -/
@[ext] structure Date where
  year : ℤ
  month : ℤ
  day : ℤ
  days : ℤ
  deriving DecidableEq

namespace Date

/-- `Date(int year, int month, int day)` -/
def init (year month day : ℤ) : Date := ⟨year, month, day, Pobo.toDays year month day⟩

def isLeapYear (d : Date) : Bool := Pobo.isLeapYear d.year

def thisYearDays (d : Date) : ℤ := 365 + if d.isLeapYear then 1 else 0

def toDays (d : Date) : ℤ := Pobo.toDays d.year d.month d.day

/-- The copy constructor copies the day number. -/
def copy (d : Date) : Date := ⟨d.year, d.month, d.day, d.days⟩

/-- `operator=` computes the day number anew. -/
def assign (_ d : Date) : Date := init d.year d.month d.day

/-- The day number on which the computational year `y` starts. -/
def yearStart (y : ℤ) : ℤ := y * 365 + y.tdiv 4 - y.tdiv 100 + y.tdiv 400

/-- `from_days` -/
def fromDays (_ : Date) (days : ℤ) : Date :=
  let y := (10000 * days + 14780).tdiv 3652425
  let ddd := days - yearStart y
  let (y, ddd) := if ddd < 0 then (y - 1, days - yearStart (y - 1)) else (y, ddd)
  let mi := (52 + 100 * ddd).tdiv 3060
  { year := y + (mi + 2).tdiv 12
    month := (mi + 2).tmod 12 + 1
    day := ddd - (mi * 306 + 5).tdiv 10 + 1
    days := days }

/-- `operator>` -/
def gt (d e : Date) : Bool := d.days > e.days

/-- `operator>=` -/
def ge (d e : Date) : Bool := d.days ≥ e.days

/-- `operator<` -/
def lt (d e : Date) : Bool := d.days < e.days

/-- `operator<=` -/
def le (d e : Date) : Bool := d.days ≤ e.days

/-- `operator==` -/
def eq (d e : Date) : Bool := d.days = e.days

/-- `int operator-(const Date &)` -/
def diff (d e : Date) : ℤ := d.days - e.days

/-- `Date operator-(int)` -/
def sub (d : Date) (n : ℤ) : Date := d.copy.fromDays (d.copy.days - n)

/-- `operator-=` -/
def subAssign (d : Date) (n : ℤ) : Date := d.fromDays (d.days - n)

/-- `Date operator+(int)` -/
def add (d : Date) (n : ℤ) : Date := d.copy.fromDays (d.copy.days + n)

/-- `operator+=` -/
def addAssign (d : Date) (n : ℤ) : Date := d.fromDays (d.days + n)

end Date

/-! ## The computational year -/

/-- A valid day of the calendar of `is_leap_year`. -/
abbrev CivilDay := Day isLeapYear

theorem tmod_eq_zero (a : ℤ) {b : ℤ} : a.tmod b = 0 ↔ a % b = 0 := by
  rw [← Int.dvd_iff_tmod_eq_zero, ← Int.dvd_iff_emod_eq_zero]

theorem isLeapYear_iff (y : ℤ) :
    isLeapYear y = true ↔ y % 4 = 0 ∧ (y % 100 ≠ 0 ∨ y % 400 = 0) := by
  simp [isLeapYear, tmod_eq_zero]

/-- The computational year of a date. -/
def compYear (c : CivilDay) : ℤ := c.year - if c.month ≤ 2 then 1 else 0

/-- The month of the computational year, March being 0. -/
def compMonth (c : CivilDay) : ℤ := if c.month ≤ 2 then c.month + 9 else c.month - 3

/-- The day of the computational year. -/
def compDay (c : CivilDay) : ℤ := (compMonth c * 306 + 5) / 10 + (c.day - 1)

theorem yearStart_nonneg {y : ℤ} (hy : 0 ≤ y) :
    Date.yearStart y = y * 365 + y / 4 - y / 100 + y / 400 := by
  simp only [Date.yearStart, Int.tdiv_eq_ediv_of_nonneg hy]

/-- **`to_days`** counts the days before the computational year and those in
    it. -/
theorem toDays_eq (c : CivilDay) :
    toDays c.year c.month c.day = Date.yearStart (compYear c) + compDay c := by
  have hm := c.month_range
  have hmod : (c.month + 9).tmod 12 = compMonth c := by
    rw [Int.tmod_eq_emod_of_nonneg (by omega), compMonth]
    split_ifs <;> omega
  have hdiv : (compMonth c).tdiv 10 = if c.month ≤ 2 then 1 else 0 := by
    rw [compMonth]
    split_ifs <;> rw [Int.tdiv_eq_ediv_of_nonneg (by omega)] <;> omega
  have hnn : 0 ≤ compMonth c * 306 + 5 := by
    rw [compMonth]; split_ifs <;> omega
  simp only [toDays, hmod, hdiv, Int.tdiv_eq_ediv_of_nonneg hnn]
  rw [Date.yearStart, compYear, compDay]; ring

theorem yearStart_succ {y : ℤ} (hy : 0 ≤ y) :
    Date.yearStart (y + 1) = Date.yearStart y + if isLeapYear (y + 1) then 366 else 365 := by
  rw [yearStart_nonneg hy, yearStart_nonneg (by omega)]
  have hl := isLeapYear_iff (y + 1)
  split_ifs with h
  · have := hl.1 h; omega
  · have := mt hl.2 h; omega

theorem monthDays_cases (c : CivilDay) : c.day ≤ 31 ∧
    ((c.month = 4 ∨ c.month = 6 ∨ c.month = 9 ∨ c.month = 11) → c.day ≤ 30) ∧
    (c.month = 2 → c.day ≤ 29 ∧ (c.day = 29 → isLeapYear c.year = true)) := by
  have hd := c.day_range.2
  unfold monthDays at hd
  split_ifs at hd with h1 h2 h3
  · exact ⟨by omega, by omega, fun _ => ⟨hd, fun _ => h2⟩⟩
  · exact ⟨by omega, by omega, fun _ => by omega⟩
  · exact ⟨by omega, fun _ => hd, fun h => absurd h h1⟩
  · exact ⟨hd, fun h => absurd h h3, fun h => absurd h h1⟩

theorem compDay_nonneg (c : CivilDay) : 0 ≤ compDay c := by
  have hm := c.month_range
  have hd := c.day_range
  unfold compDay compMonth; split_ifs <;> omega

/-- A date lies within its computational year. -/
theorem compDay_lt {c : CivilDay} (hy : 0 ≤ compYear c) :
    Date.yearStart (compYear c) + compDay c < Date.yearStart (compYear c + 1) := by
  have hm := c.month_range
  obtain ⟨hd, hd30, hd2⟩ := monthDays_cases c
  rw [yearStart_succ hy]
  by_cases h2 : c.month = 2
  · -- the leap day, if there is one, is the last day of the computational year
    obtain ⟨h29, hleap⟩ := hd2 h2
    have hyear : compYear c + 1 = c.year := by simp [compYear, h2]
    rw [hyear]
    have : compDay c = 337 + (c.day - 1) := by simp [compDay, compMonth, h2]
    split_ifs with hl
    · omega
    · have : c.day ≠ 29 := fun h => hl (hleap h)
      omega
  · have : compDay c ≤ 364 := by
      unfold compDay compMonth
      split_ifs with hm2
      · omega
      · have : c.month = 12 ∨ c.month ≤ 11 := by omega
        omega
    split_ifs <;> omega

/-- **The estimate of the year** is exact or one too large. -/
theorem estimate_bounds {y ddd : ℤ} (hy : 0 ≤ y) (h0 : 0 ≤ ddd)
    (h1 : Date.yearStart y + ddd < Date.yearStart (y + 1)) :
    (10000 * (Date.yearStart y + ddd) + 14780).tdiv 3652425 = y ∨
      (10000 * (Date.yearStart y + ddd) + 14780).tdiv 3652425 = y + 1 := by
  have hlen : ddd ≤ 365 := by rw [yearStart_succ hy] at h1; split_ifs at h1 <;> omega
  rw [yearStart_nonneg hy]
  -- the leap days up to the year `y`, counted by four years, centuries and eras
  obtain ⟨a, ha⟩ : ∃ a, a = y / 400 := ⟨_, rfl⟩
  obtain ⟨b, hb⟩ : ∃ b, b = y / 100 - 4 * (y / 400) := ⟨_, rfl⟩
  obtain ⟨q, hq⟩ : ∃ q, q = y / 4 - 25 * (y / 100) := ⟨_, rfl⟩
  obtain ⟨r, hr⟩ : ∃ r, r = y - 4 * (y / 4) := ⟨_, rfl⟩
  have hb' : 0 ≤ b ∧ b ≤ 3 := by omega
  have hq' : 0 ≤ q ∧ q ≤ 24 := by omega
  have hr' : 0 ≤ r ∧ r ≤ 3 := by omega
  have hyq : y = 400 * a + 100 * b + 4 * q + r := by omega
  have h4 : y / 4 - y / 100 + y / 400 = 97 * a + 24 * b + q := by omega
  rw [show y * 365 + y / 4 - y / 100 + y / 400 + ddd =
    y * 365 + (97 * a + 24 * b + q) + ddd by omega, Int.tdiv_eq_ediv_of_nonneg (by omega)]
  have hlow : y * 3652425 ≤ 10000 * (y * 365 + (97 * a + 24 * b + q) + ddd) + 14780 := by omega
  have hhigh : 10000 * (y * 365 + (97 * a + 24 * b + q) + ddd) + 14780 < (y + 2) * 3652425 := by
    omega
  have := (Int.le_ediv_iff_mul_le (by norm_num : (0 : ℤ) < 3652425)).2 hlow
  have := (Int.ediv_lt_iff_lt_mul (by norm_num : (0 : ℤ) < 3652425)).2 hhigh
  omega

/-- A day lies before the next month of the computational year. -/
theorem compDay_month (c : CivilDay) : compDay c < ((compMonth c + 1) * 306 + 5) / 10 := by
  obtain ⟨hm1, hm12⟩ := c.month_range
  obtain ⟨hd, hd30, hd2⟩ := monthDays_cases c
  unfold compDay compMonth
  generalize c.month = m at *
  generalize c.day = d at *
  -- month by month, with its length
  interval_cases m <;> simp at hd30 hd2 ⊢ <;> omega

/-- The month formula of `from_days`. -/
theorem month_of_compDay (c : CivilDay) : (52 + 100 * compDay c).tdiv 3060 = compMonth c := by
  have hlow : (compMonth c * 306 + 5) / 10 ≤ compDay c := by
    have := c.day_range; unfold compDay; omega
  have hhigh := compDay_month c
  have hnn := compDay_nonneg c
  rw [Int.tdiv_eq_ediv_of_nonneg (by omega)]
  omega

/-- **`from_days` inverts `to_days`** from the 1st of March of the year 0 on. -/
theorem fromDays_toDays {c : CivilDay} (hy : 0 ≤ compYear c) (d : Date) :
    d.fromDays (toDays c.year c.month c.day) = Date.init c.year c.month c.day := by
  have hm := c.month_range
  have hnn := compDay_nonneg c
  have hlt := compDay_lt hy
  have hcm : 0 ≤ compMonth c := by unfold compMonth; split_ifs <;> omega
  -- with the year found, the other members follow from the month formula
  have key : (⟨compYear c + (compMonth c + 2).tdiv 12, (compMonth c + 2).tmod 12 + 1,
      compDay c - (compMonth c * 306 + 5).tdiv 10 + 1,
      toDays c.year c.month c.day⟩ : Date) = Date.init c.year c.month c.day := by
    rw [Int.tdiv_eq_ediv_of_nonneg (by omega), Int.tmod_eq_emod_of_nonneg (by omega),
      Int.tdiv_eq_ediv_of_nonneg (by omega)]
    ext
    · show compYear c + (compMonth c + 2) / 12 = c.year
      unfold compYear compMonth; split_ifs <;> omega
    · show (compMonth c + 2) % 12 + 1 = c.month
      unfold compMonth; split_ifs <;> omega
    · show compDay c - (compMonth c * 306 + 5) / 10 + 1 = c.day
      unfold compDay; omega
    · rfl
  have hest := estimate_bounds hy hnn hlt
  rw [← toDays_eq] at hest hlt
  have hddd : toDays c.year c.month c.day - Date.yearStart (compYear c) = compDay c := by
    rw [toDays_eq]; ring
  rcases hest with he | he
  · simp only [Date.fromDays, he, hddd, if_neg (not_lt.2 hnn), month_of_compDay]
    exact key
  · have hneg : toDays c.year c.month c.day - Date.yearStart (compYear c + 1) < 0 := by omega
    simp only [Date.fromDays, he, if_pos hneg, add_sub_cancel_right, hddd, month_of_compDay]
    exact key

/-! ## Stepping from day to day -/

/-- The days from day 0 on. -/
def FromMarch (c : CivilDay) : Prop := 0 ≤ compYear c

theorem fromMarch_of_year {c : CivilDay} (hy : 1 ≤ c.year) : FromMarch c := by
  unfold FromMarch compYear; split_ifs <;> omega

theorem toDays_nonneg {c : CivilDay} (hc : FromMarch c) : 0 ≤ toDays c.year c.month c.day := by
  have := compDay_nonneg c
  unfold FromMarch at hc
  rw [toDays_eq, yearStart_nonneg hc]; omega

/-- The number of a day that is not the last one of a computational month. -/
theorem compDay_last {c : CivilDay} (hd : c.day = monthDays isLeapYear c.year c.month)
    (h2 : c.month ≠ 2) : compDay c + 1 = ((compMonth c + 1) * 306 + 5) / 10 := by
  obtain ⟨hm1, hm12⟩ := c.month_range
  rw [monthDays, if_neg h2] at hd
  unfold compDay compMonth
  generalize c.month = m at *
  generalize c.day = d at *
  interval_cases m <;> simp at hd h2 ⊢ <;> omega

/-- The last day of February is the last one of the computational year. -/
theorem compDay_february {c : CivilDay} (hc : FromMarch c)
    (hd : c.day = monthDays isLeapYear c.year c.month) (h2 : c.month = 2) :
    Date.yearStart (compYear c) + compDay c + 1 = Date.yearStart (compYear c + 1) := by
  have hyear : compYear c + 1 = c.year := by simp [compYear, h2]
  have hday : compDay c = 337 + (c.day - 1) := by simp [compDay, compMonth, h2]
  rw [yearStart_succ hc, hyear, hday, hd, monthDays, if_pos h2]
  split_ifs <;> omega

/-- **The next day** has the next number. -/
theorem toDays_next {c : CivilDay} (hc : FromMarch c) : FromMarch c.next ∧
    toDays c.next.year c.next.month c.next.day = toDays c.year c.month c.day + 1 := by
  have hm := c.month_range
  have hr := c.day_range
  have hc' := hc
  rw [toDays_eq, toDays_eq]
  unfold FromMarch at hc' ⊢
  unfold Day.next
  split_ifs with hd hm12
  · refine ⟨hc', ?_⟩
    show Date.yearStart (compYear c) + ((compMonth c * 306 + 5) / 10 + (c.day + 1 - 1)) = _
    unfold compDay; omega
  · have hday : c.day = monthDays isLeapYear c.year c.month := by omega
    by_cases h2 : c.month = 2
    · have hfeb := compDay_february hc hday h2
      have hy : compYear (Day.first isLeapYear c.year (c.month + 1) (by omega)) =
          compYear c + 1 := by simp [compYear, Day.first, h2]
      have hd0 : compDay (Day.first isLeapYear c.year (c.month + 1) (by omega)) = 0 := by
        simp [compDay, compMonth, Day.first, h2]
      rw [hy, hd0]; omega
    · have hlast := compDay_last hday h2
      have hy : compYear (Day.first isLeapYear c.year (c.month + 1) (by omega)) = compYear c := by
        simp only [compYear, Day.first]; split_ifs <;> omega
      have hd0 : compDay (Day.first isLeapYear c.year (c.month + 1) (by omega)) =
          ((compMonth c + 1) * 306 + 5) / 10 := by
        simp only [compDay, compMonth, Day.first]; split_ifs <;> omega
      rw [hy, hd0]; omega
  · have hday : c.day = monthDays isLeapYear c.year c.month := by omega
    have hlast := compDay_last hday (by omega)
    have hy : compYear (Day.first isLeapYear (c.year + 1) 1 (by omega)) = compYear c := by
      simp only [compYear, Day.first]; split_ifs <;> omega
    have hd0 : compDay (Day.first isLeapYear (c.year + 1) 1 (by omega)) =
        ((compMonth c + 1) * 306 + 5) / 10 := by
      simp only [compDay, compMonth, Day.first]; split_ifs <;> omega
    rw [hy, hd0]; omega

/-- **The previous day** of a day after day 0 has the previous number. -/
theorem toDays_prev {c : CivilDay} (hc : FromMarch c) (h0 : 0 < toDays c.year c.month c.day) :
    FromMarch c.prev ∧
      toDays c.prev.year c.prev.month c.prev.day = toDays c.year c.month c.day - 1 := by
  have hprev : FromMarch c.prev := by
    have hm := c.month_range
    have hr := c.day_range
    unfold FromMarch at hc ⊢
    unfold Day.prev
    split_ifs with hd hm1
    · exact hc
    · by_contra hneg
      -- only the 1st of March of the year 0 has a previous day before day 0
      have h3 : c.month = 3 ∧ compYear c = 0 := by
        simp only [compYear, Day.last] at hc hneg ⊢
        split_ifs at hc hneg ⊢ <;> omega
      have hd0 : compDay c = 0 := by simp only [compDay, compMonth, h3.1]; norm_num; omega
      rw [toDays_eq, hd0, h3.2] at h0
      exact absurd h0 (by decide)
    · simp only [compYear, Day.last] at hc ⊢
      split_ifs at hc ⊢ <;> omega
  have hnext := toDays_next hprev
  rw [Day.next_prev] at hnext
  exact ⟨hprev, by omega⟩

/-- **Stepping** adds to the number. -/
theorem toDays_step {c : CivilDay} (hc : FromMarch c) (n : ℤ)
    (hn : 0 ≤ toDays c.year c.month c.day + n) : FromMarch (c.step n) ∧
      toDays (c.step n).year (c.step n).month (c.step n).day =
        toDays c.year c.month c.day + n :=
  Day.step_induction FromMarch (fun c => toDays c.year c.month c.day) 0
    (fun _ hc _ => toDays_next hc) (fun _ hc h0 => toDays_prev hc h0) hc (toDays_nonneg hc) n hn

/-- **The days of a year**: so many days after New Year it is New Year again. -/
theorem add_thisYearDays {y : ℤ} (hy : 1 ≤ y) :
    (Date.init y 1 1).add (Date.init y 1 1).thisYearDays = Date.init (y + 1) 1 1 := by
  have hyear := @yearStart_succ (y - 1) (by omega)
  rw [sub_add_cancel] at hyear
  have hdays : Pobo.toDays y 1 1 + (Date.init y 1 1).thisYearDays = Pobo.toDays (y + 1) 1 1 := by
    have hnew (z : ℤ) : Pobo.toDays z 1 1 = Date.yearStart (z - 1) + 306 := by
      change _ + (0 : ℤ) = _
      rw [add_zero]
      rfl
    rw [hnew, hnew, add_sub_cancel_right, hyear, Date.thisYearDays]
    change _ + (365 + if isLeapYear y = true then 1 else 0) = _
    split_ifs <;> omega
  have hnext : FromMarch (Day.first isLeapYear (y + 1) 1 (by decide)) :=
    fromMarch_of_year (by show 1 ≤ y + 1; omega)
  have hfrom := fromDays_toDays hnext (Date.init y 1 1).copy
  change (Date.init y 1 1).copy.fromDays
    (Pobo.toDays y 1 1 + (Date.init y 1 1).thisYearDays) = _
  rw [hdays]
  exact hfrom

/-- Different days have different numbers. -/
theorem toDays_inj {c d : CivilDay} (hc : FromMarch c) (hd : FromMarch d)
    (h : toDays c.year c.month c.day = toDays d.year d.month d.day) : c = d := by
  have hfrom := fromDays_toDays hc (Date.init 0 0 0)
  rw [h, fromDays_toDays hd] at hfrom
  obtain ⟨hy, hm, hday, -⟩ := Date.mk.inj hfrom
  exact Day.ext hy.symm hm.symm hday.symm

/-- The numbers are in the order of the days, for any key that grows from day
    to day. -/
theorem toDays_le_iff {β : Type*} [LinearOrder β] {key : CivilDay → β}
    (h : ∀ c, key c < key c.next) {c d : CivilDay} (hc : FromMarch c) (hd : FromMarch d) :
    key c ≤ key d ↔ toDays c.year c.month c.day ≤ toDays d.year d.month d.day := by
  have hlt : ∀ {c d : CivilDay}, FromMarch c → FromMarch d →
      toDays c.year c.month c.day < toDays d.year d.month d.day → key c < key d := by
    intro c d hc hd hcd
    have h0 := toDays_nonneg hd
    obtain ⟨hm, hn⟩ := toDays_step hc (toDays d.year d.month d.day - toDays c.year c.month c.day)
      (by omega)
    rw [← toDays_inj hm hd (by omega)]
    exact Day.lt_step key h c (by omega)
  constructor
  · intro hk
    by_contra hn
    exact absurd (hlt hd hc (by omega)) (not_lt.2 hk)
  · intro hn
    rcases hn.lt_or_eq with hn | hn
    · exact (hlt hc hd hn).le
    · rw [toDays_inj hc hd hn]

/-- Every number is that of a day. -/
theorem exists_toDays {n : ℤ} (hn : 0 ≤ n) :
    ∃ c, FromMarch c ∧ toDays c.year c.month c.day = n := by
  let first : CivilDay := ⟨0, 3, 1, by decide, by decide⟩
  have h0 : toDays first.year first.month first.day = 0 := by decide
  have hfirst : FromMarch first := by unfold FromMarch; decide
  obtain ⟨h1, h2⟩ := toDays_step hfirst n (by omega)
  exact ⟨first.step n, h1, by omega⟩

/-! ## The operators -/

/-- The year, month and day of a date are those of a civil day. -/
def Date.Shows (d : Date) (c : CivilDay) : Prop :=
  d.year = c.year ∧ d.month = c.month ∧ d.day = c.day

/-- **`from_days`** of a shifted number steps from day to day. -/
theorem fromDays_step {c : CivilDay} (hc : FromMarch c) (d : Date) (n : ℤ)
    (hn : 0 ≤ toDays c.year c.month c.day + n) :
    (d.fromDays (toDays c.year c.month c.day + n)).Shows (c.step n) := by
  obtain ⟨hmarch, hstep⟩ := toDays_step hc n hn
  rw [← hstep, fromDays_toDays hmarch]
  exact ⟨rfl, rfl, rfl⟩

/-- **Date arithmetic.**  Adding `n` days to a valid date from the year 1 on
    steps `|n|` times to the next (`0 ≤ n`) or previous (`n < 0`) civil day, as
    long as the day number of the result is not negative; so do the other
    operators. -/
theorem arithmetic_steps (c : CivilDay) (hy : 1 ≤ c.year) (n : ℤ)
    (hn : 0 ≤ (Date.init c.year c.month c.day).days + n) :
    let d := Date.init c.year c.month c.day
    (d.add n).Shows (c.step n) ∧ (d.addAssign n).Shows (c.step n) ∧
      (d.sub (-n)).Shows (c.step n) ∧ (d.subAssign (-n)).Shows (c.step n) ∧
      (d.add 0).Shows c ∧ (d.add n).diff d = n := by
  intro d
  have hc := fromMarch_of_year hy
  have key : ∀ (e : Date) (k : ℤ), 0 ≤ d.days + k → (e.fromDays (d.days + k)).Shows (c.step k) :=
    fromDays_step hc
  refine ⟨key _ n hn, key _ n hn, ?_, ?_, ?_, ?_⟩
  · rw [Date.sub, sub_neg_eq_add]; exact key _ n hn
  · rw [Date.subAssign, sub_neg_eq_add]; exact key _ n hn
  · have h0 : 0 ≤ d.days + 0 := by rw [add_zero]; exact toDays_nonneg hc
    have := key d.copy 0 h0
    rwa [Day.step_zero] at this
  · show d.days + n - d.days = n
    omega

/-- The leap day of 2024. -/
def leapDay : CivilDay := ⟨2024, 2, 29, by decide, by decide⟩

theorem arithmetic_steps_leapDay :
    ((Date.init 2024 2 29).add (-366)).Shows (leapDay.step (-366)) ∧
      (Date.init 2024 2 29).add (-366) = ⟨2023, 2, 28, 738884⟩ :=
  ⟨(arithmetic_steps leapDay (by decide) (-366) (by decide)).1, by decide⟩

end CppExperiment.Pobo
