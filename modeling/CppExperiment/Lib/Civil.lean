/-
  Civil days of a calendar with months and leap years.

  The calendar is given by its leap years; the months have their usual lengths.
  A `Day` carries the proof that it is valid.  `next` and `prev` are inverse
  (`prev_next`, `next_prev`), and `step n` goes `|n|` days forward or back.

  `step_induction` is the rule for a numbering of the days: what holds one day
  on and one day back, within a bound on the numbers, holds of `step n`.

  `zeller` is the closed form for weekdays in the Gregorian calendar.
-/
import Mathlib

namespace CppExperiment.Civil

/-- The number of days of a month. -/
def monthDays (leap : ℤ → Bool) (year month : ℤ) : ℤ :=
  if month = 2 then (if leap year then 29 else 28)
  else if month = 4 ∨ month = 6 ∨ month = 9 ∨ month = 11 then 30
  else 31

/-- A day: year, month and day of the month, valid in the calendar. -/
@[ext] structure Day (leap : ℤ → Bool) where
  year : ℤ
  month : ℤ
  day : ℤ
  month_range : 1 ≤ month ∧ month ≤ 12
  day_range : 1 ≤ day ∧ day ≤ monthDays leap year month

variable {leap : ℤ → Bool}

/-- Zeller's formula for the weekday of a Gregorian date: 0 is Sunday, 6 is
    Saturday.  January and February count as months of the year before. -/
def zeller (year month day : ℤ) : ℤ :=
  let y := if month ≤ 2 then year - 1 else year
  let m := if month ≤ 2 then month + 12 else month
  let k := y % 100
  let j := y / 100
  (day + 13 * (m + 1) / 5 + k + k / 4 + j / 4 + 5 * j + 6) % 7

theorem monthDays_ge (year month : ℤ) : 28 ≤ monthDays leap year month := by
  unfold monthDays; split_ifs <;> norm_num

theorem monthDays_december (year : ℤ) : monthDays leap year 12 = 31 := by
  simp [monthDays]

namespace Day

/-- The first day of a month. -/
def first (leap : ℤ → Bool) (year month : ℤ) (h : 1 ≤ month ∧ month ≤ 12) : Day leap :=
  ⟨year, month, 1, h, le_rfl, by have := @monthDays_ge leap year month; omega⟩

/-- The last day of a month. -/
def last (leap : ℤ → Bool) (year month : ℤ) (h : 1 ≤ month ∧ month ≤ 12) : Day leap :=
  ⟨year, month, monthDays leap year month, h,
    by have := @monthDays_ge leap year month; omega, le_rfl⟩

/-- The next day. -/
def next (c : Day leap) : Day leap :=
  if hd : c.day < monthDays leap c.year c.month then
    ⟨c.year, c.month, c.day + 1, c.month_range, by have := c.day_range; omega⟩
  else if hm : c.month < 12 then
    first leap c.year (c.month + 1) (by have := c.month_range; omega)
  else first leap (c.year + 1) 1 (by omega)

/-- The previous day. -/
def prev (c : Day leap) : Day leap :=
  if hd : 1 < c.day then
    ⟨c.year, c.month, c.day - 1, c.month_range, by have := c.day_range; omega⟩
  else if hm : 1 < c.month then
    last leap c.year (c.month - 1) (by have := c.month_range; omega)
  else last leap (c.year - 1) 12 (by omega)

/-- After the last day of a month comes the first day of the next one. -/
theorem next_last {year month : ℤ} (h : 1 ≤ month ∧ month ≤ 12) (hm : month < 12) :
    (last leap year month h).next = first leap year (month + 1) (by omega) := by
  unfold next last
  rw [dif_neg (lt_irrefl _), dif_pos hm]

/-- After the last day of a year comes the first day of the next one. -/
theorem next_last_december {year : ℤ} (h : (1 : ℤ) ≤ 12 ∧ (12 : ℤ) ≤ 12) :
    (last leap year 12 h).next = first leap (year + 1) 1 (by omega) := by
  unfold next last
  rw [dif_neg (lt_irrefl _), dif_neg (lt_irrefl _)]

/-- The day `|n|` days later (`0 ≤ n`) or earlier (`n < 0`). -/
def step (n : ℤ) (c : Day leap) : Day leap :=
  if 0 ≤ n then next^[n.natAbs] c else prev^[n.natAbs] c

/-- **The previous day of the next day.** -/
theorem prev_next (c : Day leap) : c.next.prev = c := by
  have hm := c.month_range
  have hd := c.day_range
  unfold next
  split_ifs with h1 h2
  · unfold prev
    rw [dif_pos (show 1 < c.day + 1 by omega)]
    ext <;> simp
  · unfold prev first
    rw [dif_neg (by norm_num), dif_pos (show 1 < c.month + 1 by omega)]
    ext <;> simp [last]; omega
  · have hm12 : c.month = 12 := by omega
    unfold prev first
    rw [dif_neg (by norm_num), dif_neg (by norm_num)]
    have := @monthDays_december leap c.year
    ext <;> simp [last, hm12]
    rw [hm12] at h1 hd; omega

/-- **The next day of the previous day.** -/
theorem next_prev (c : Day leap) : c.prev.next = c := by
  have hm := c.month_range
  have hd := c.day_range
  unfold prev
  split_ifs with h1 h2
  · unfold next
    rw [dif_pos (show c.day - 1 < monthDays leap c.year c.month by omega)]
    ext <;> simp
  · rw [next_last _ (by omega)]
    ext <;> simp [first]; omega
  · rw [next_last_december]
    ext <;> simp [first] <;> omega

theorem step_zero (c : Day leap) : c.step 0 = c := rfl

/-- A key that grows from day to day grows with every step forward. -/
theorem lt_step {β : Type*} [Preorder β] (key : Day leap → β) (h : ∀ c, key c < key c.next)
    (c : Day leap) {n : ℤ} (hn : 0 < n) : key c < key (c.step n) := by
  have hk : ∀ k : ℕ, key c < key (next^[k + 1] c) := by
    intro k
    induction k with
    | zero => exact h c
    | succ k ih =>
      rw [Function.iterate_succ_apply']
      exact ih.trans (h _)
  rw [step, if_pos hn.le, show n.natAbs = n.natAbs - 1 + 1 by omega]
  exact hk _

/-- Stepping back undoes stepping. -/
theorem step_neg_step (c : Day leap) (n : ℤ) : (c.step n).step (-n) = c := by
  have hnext : ∀ k : ℕ, prev^[k] (next^[k] c) = c := (Function.LeftInverse.iterate prev_next · c)
  have hprev : ∀ k : ℕ, next^[k] (prev^[k] c) = c := (Function.LeftInverse.iterate next_prev · c)
  unfold step
  rcases lt_trichotomy n 0 with hn | rfl | hn
  · rw [if_pos (by omega), if_neg (by omega), Int.natAbs_neg]
    exact hprev _
  · rfl
  · rw [if_neg (by omega), if_pos hn.le, Int.natAbs_neg]
    exact hnext _

/-- The year, the month and the day, in lexicographic order. -/
def lex (c : Day leap) : ℤ ×ₗ ℤ ×ₗ ℤ := toLex (c.year, toLex (c.month, c.day))

theorem lex_lt_next (c : Day leap) : c.lex < c.next.lex := by
  unfold lex next
  split_ifs
  · refine Prod.Lex.toLex_lt_toLex.2 (.inr ⟨rfl, ?_⟩)
    exact Prod.Lex.toLex_lt_toLex.2 (.inr ⟨rfl, lt_add_one _⟩)
  · exact Prod.Lex.toLex_lt_toLex.2 (.inr ⟨rfl, Prod.Lex.toLex_lt_toLex.2 (.inl (lt_add_one _))⟩)
  · exact Prod.Lex.toLex_lt_toLex.2 (.inl (lt_add_one _))

/-- **Numbered days.**  Let `num` number the days that satisfy `P`, so that a
    day with number at least `b` has a next day numbered one more and, if its
    number is above `b`, a previous day numbered one less.  Then `step n` adds
    `n` as long as the result is at least `b`. -/
theorem step_induction (P : Day leap → Prop) (num : Day leap → ℤ) (b : ℤ)
    (hnext : ∀ c, P c → b ≤ num c → P c.next ∧ num c.next = num c + 1)
    (hprev : ∀ c, P c → b < num c → P c.prev ∧ num c.prev = num c - 1) {c : Day leap} (hc : P c)
    (hb : b ≤ num c) (n : ℤ) (hn : b ≤ num c + n) : P (c.step n) ∧ num (c.step n) = num c + n := by
  have up : ∀ k : ℕ, P (next^[k] c) ∧ num (next^[k] c) = num c + k := by
    intro k
    induction k with
    | zero => exact ⟨hc, by simp⟩
    | succ k ih =>
      rw [Function.iterate_succ_apply']
      obtain ⟨h1, h2⟩ := hnext _ ih.1 (by omega)
      exact ⟨h1, by push_cast; omega⟩
  have down : ∀ k : ℕ, b ≤ num c - k → P (prev^[k] c) ∧ num (prev^[k] c) = num c - k := by
    intro k
    induction k with
    | zero => exact fun _ => ⟨hc, by simp⟩
    | succ k ih =>
      intro hk
      push_cast at hk
      have ih := ih (by omega)
      rw [Function.iterate_succ_apply']
      obtain ⟨h1, h2⟩ := hprev _ ih.1 (by omega)
      exact ⟨h1, by push_cast; omega⟩
  unfold step
  split_ifs with h0
  · obtain ⟨h1, h2⟩ := up n.natAbs
    exact ⟨h1, by omega⟩
  · obtain ⟨h1, h2⟩ := down n.natAbs (by omega)
    exact ⟨h1, by omega⟩

end Day

end CppExperiment.Civil
