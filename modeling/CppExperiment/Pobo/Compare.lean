/-
  Comparing dates with the operators of `pobo::Date`.

  The operators compare the cached day numbers.

  `compare_lex`: on valid dates this is the lexicographic order of year, month
  and day, and the difference is the number of days from one to the other.
-/
import CppExperiment.Pobo.Date

namespace CppExperiment.Pobo

open Civil (Day)

variable {a b : CivilDay}

/-- The difference of the day numbers is the number of steps between two days. -/
theorem step_eq_iff (ha : 1 ≤ a.year) (hb : 1 ≤ b.year) (n : ℤ) :
    b.step n = a ↔ n = toDays a.year a.month a.day - toDays b.year b.month b.day := by
  have ha := fromMarch_of_year ha
  have hb := fromMarch_of_year hb
  have hna := toDays_nonneg ha
  have hnb := toDays_nonneg hb
  constructor
  · intro h
    rcases le_total 0 n with hn | hn
    · have hnum := (toDays_step hb n (by omega)).2
      rw [h] at hnum
      omega
    · -- back from `a`, over numbers that are not negative
      have hback : a.step (-n) = b := by rw [← h, Day.step_neg_step]
      have hnum := (toDays_step ha (-n) (by omega)).2
      rw [hback] at hnum
      omega
  · rintro rfl
    obtain ⟨hm, hnum⟩ := toDays_step hb (toDays a.year a.month a.day - toDays b.year b.month b.day)
      (by omega)
    exact toDays_inj hm ha (by omega)

theorem le_iff_lex (ha : 1 ≤ a.year) (hb : 1 ≤ b.year) :
    toDays a.year a.month a.day ≤ toDays b.year b.month b.day ↔ a.lex ≤ b.lex :=
  (toDays_le_iff Day.lex_lt_next (fromMarch_of_year ha) (fromMarch_of_year hb)).symm

theorem lt_iff_lex (ha : 1 ≤ a.year) (hb : 1 ≤ b.year) :
    toDays a.year a.month a.day < toDays b.year b.month b.day ↔ a.lex < b.lex := by
  rw [← not_le, le_iff_lex hb ha, not_le]

/-- **The operators.**  On valid dates from the year 1 on the comparisons are
    those of year, month and day in lexicographic order, `==` is equality, and
    the difference is the one number of steps from the second date to the
    first. -/
theorem compare_lex (a b : CivilDay) (ha : 1 ≤ a.year) (hb : 1 ≤ b.year) :
    let d := Date.init a.year a.month a.day
    let e := Date.init b.year b.month b.day
    (d.lt e = true ↔ a.lex < b.lex) ∧ (d.le e = true ↔ a.lex ≤ b.lex) ∧
      (d.gt e = true ↔ b.lex < a.lex) ∧ (d.ge e = true ↔ b.lex ≤ a.lex) ∧
      (d.eq e = true ↔ a = b) ∧ (∀ n, b.step n = a ↔ n = d.diff e) ∧ (d.diff e = 0 ↔ a = b) := by
  intro d e
  have hinj : d.days = e.days ↔ a = b :=
    ⟨toDays_inj (fromMarch_of_year ha) (fromMarch_of_year hb), fun h => by subst h; rfl⟩
  refine ⟨?_, ?_, ?_, ?_, ?_, step_eq_iff ha hb, ?_⟩
  · rw [Date.lt, decide_eq_true_iff]
    exact lt_iff_lex ha hb
  · rw [Date.le, decide_eq_true_iff]
    exact le_iff_lex ha hb
  · rw [Date.gt, decide_eq_true_iff]
    exact lt_iff_lex hb ha
  · rw [Date.ge, decide_eq_true_iff]
    exact le_iff_lex hb ha
  · rw [Date.eq, decide_eq_true_iff]
    exact hinj
  · rw [Date.diff, sub_eq_zero]
    exact hinj

/-- The last day of 2023. -/
def endOf2023 : CivilDay := ⟨2023, 12, 31, by decide, by decide⟩

/-- The leap day of 2024 lies after it, by 60 days. -/
theorem compare_lex_leapDay : (Date.init 2024 2 29).gt (Date.init 2023 12 31) = true ∧
    endOf2023.step 60 = leapDay := by
  obtain ⟨-, -, hgt, -, -, hstep, -⟩ := compare_lex leapDay endOf2023 (by decide) (by decide)
  exact ⟨hgt.2 (by decide), (hstep 60).2 (by decide)⟩

end CppExperiment.Pobo
