/-
  `STD::FormatTime`, `STD::FormatTimeAndReturnSize` and `STD::FormatTimeINT` in
  CommonTools/STD.h.

  A time is a number whose decimal digits are those of the hour, the minute
  and the second, and maybe the millisecond; how large it is decides which.
  `formatTime_millis_iff`: both forms of a time from one o'clock on are printed
  alike, but for one o'clock itself.
-/
import CppExperiment.Lib.Decimal

namespace CppExperiment.STD

/-- An `int` as a `size_t`. -/
def sizeT (x : ℤ) : ℕ := (x % 2 ^ 64).toNat

/-- The three numbers that are printed for a time. -/
def timeParts (time : ℤ) : ℤ × ℤ × ℤ :=
  if time > 10000000 then
    (time.tdiv 10000000, (time.tdiv 100000).tmod 100, (time.tdiv 1000).tmod 100)
  else if time > 1000000 ∧ time < 10000000 then
    (time.tdiv 100000, (time.tdiv 10000).tmod 100, (time.tdiv 100).tmod 100)
  else if time > 1000000 then
    (time.tdiv 100000, (time.tdiv 1000).tmod 100, (time.tdiv 10).tmod 100)
  else
    ((time.tdiv 10000).tmod 100, (time.tdiv 100).tmod 100, time.tmod 100)

/-- Three numbers as `%02d`, with `sep` between them. -/
def partsText (sep : List UInt8) (parts : ℤ × ℤ × ℤ) : List UInt8 :=
  printInt 2 parts.1 ++ sep ++ printInt 2 parts.2.1 ++ sep ++ printInt 2 parts.2.2

/-- `FormatTimeAndReturnSize(out, size, time)` -/
def formatTimeAndReturnSize (m : Mem) (out : ℕ) (size time : ℤ) : Option (Mem × ℕ) :=
  m.snprintf out (sizeT size) (partsText [58] (timeParts time))

/-- `FormatTime(out, size, time)` -/
def formatTime (m : Mem) (out : ℕ) (size time : ℤ) : Option Mem := do
  let (m, _) ← formatTimeAndReturnSize m out size time
  some m

/-- `FormatTimeINT(out, size, time)` -/
def formatTimeINT (m : Mem) (out : ℕ) (size time : ℤ) : Option Mem := do
  let (m, _) ← m.snprintf out (sizeT size) (partsText [] (timeParts time))
  some m

/-! ## Times of day -/

/-- A time of day, to the millisecond. -/
structure TimeOfDay where
  hour : ℤ
  minute : ℤ
  second : ℤ
  milli : ℤ
  hour_range : 0 ≤ hour ∧ hour ≤ 23
  minute_range : 0 ≤ minute ∧ minute ≤ 59
  second_range : 0 ≤ second ∧ second ≤ 59
  milli_range : 0 ≤ milli ∧ milli ≤ 999

namespace TimeOfDay
variable (t : TimeOfDay)

/-- `HHMMSS` -/
def plain : ℤ := (t.hour * 100 + t.minute) * 100 + t.second

/-- `HHMMSSmmm` -/
def millis : ℤ := ((t.hour * 100 + t.minute) * 100 + t.second) * 1000 + t.milli

/-- The hour, the minute and the second. -/
def parts : ℤ × ℤ × ℤ := (t.hour, t.minute, t.second)

/-- The plain form is below all other ranges. -/
theorem timeParts_plain : timeParts t.plain = t.parts := by
  obtain ⟨h, m, s, ms, hh, hm, hs, hms⟩ := t
  simp only [plain, parts]
  have h0 : 0 ≤ (h * 100 + m) * 100 + s := by omega
  rw [timeParts, if_neg (by omega), if_neg (by omega), if_neg (by omega),
    Int.tdiv_eq_ediv_of_nonneg h0, Int.tdiv_eq_ediv_of_nonneg h0, Int.tmod_eq_emod_of_nonneg h0,
    Int.tmod_eq_emod_of_nonneg (by omega), Int.tmod_eq_emod_of_nonneg (by omega)]
  refine Prod.ext ?_ (Prod.ext ?_ ?_)
  · dsimp only; omega
  · dsimp only; omega
  · dsimp only; omega

/-- The form with milliseconds is in the range above, but for one o'clock. -/
theorem timeParts_millis (h1 : 1 ≤ t.hour) (hne : t.millis ≠ 10000000) :
    timeParts t.millis = t.parts := by
  obtain ⟨h, m, s, ms, hh, hm, hs, hms⟩ := t
  simp only [millis, parts] at h1 hne ⊢
  have h0 : 0 ≤ ((h * 100 + m) * 100 + s) * 1000 + ms := by omega
  rw [timeParts, if_pos (by omega), Int.tdiv_eq_ediv_of_nonneg h0,
    Int.tdiv_eq_ediv_of_nonneg h0, Int.tdiv_eq_ediv_of_nonneg h0,
    Int.tmod_eq_emod_of_nonneg (by omega), Int.tmod_eq_emod_of_nonneg (by omega)]
  refine Prod.ext ?_ (Prod.ext ?_ ?_)
  · dsimp only; omega
  · dsimp only; omega
  · dsimp only; omega

/-- One o'clock in milliseconds. -/
theorem millis_eq_iff (h1 : 1 ≤ t.hour) :
    t.millis = 10000000 ↔ t.hour = 1 ∧ t.minute = 0 ∧ t.second = 0 ∧ t.milli = 0 := by
  obtain ⟨h, m, s, ms, hh, hm, hs, hms⟩ := t
  simp only [millis] at h1 ⊢
  omega

/-- `HH:MM:SS`, with `sep` for the colons. -/
def text (sep : List UInt8) : List UInt8 := partsText sep t.parts

theorem length_text (sep : List UInt8) : (t.text sep).length = 6 + 2 * sep.length := by
  obtain ⟨h, m, s, ms, hh, hm, hs, hms⟩ := t
  have htwo {x : ℤ} (h0 : 0 ≤ x) (h59 : x ≤ 59) : (printInt 2 x).length = 2 := by
    rw [printInt_nonneg h0, length_printDecimal (by decide) (by omega)]
  rw [text, partsText, parts]
  simp only [List.length_append]
  rw [htwo hh.1 (by omega), htwo hm.1 hm.2, htwo hs.1 hs.2]
  omega

end TimeOfDay

/-- **Both forms of a time.**  The form with milliseconds and the plain form of
    a time from one o'clock on are printed as the same `HH:MM:SS`, unless it is
    one o'clock to the millisecond. -/
theorem formatTime_millis_iff (t : TimeOfDay) (h1 : 1 ≤ t.hour) (m : Mem) (out : ℕ) (size : ℤ)
    (hsz : sizeT size ≤ (m out).length) :
    (formatTimeAndReturnSize m out size t.millis = m.snprintf out (sizeT size) (t.text [58]) ∧
      formatTimeAndReturnSize m out size t.plain = m.snprintf out (sizeT size) (t.text [58]) ∧
      formatTimeINT m out size t.millis =
        (m.snprintf out (sizeT size) (t.text [])).map Prod.fst ∧
      formatTimeINT m out size t.plain =
        (m.snprintf out (sizeT size) (t.text [])).map Prod.fst) ↔
      ¬ (t.hour = 1 ∧ t.minute = 0 ∧ t.second = 0 ∧ t.milli = 0) := by
  rw [← t.millis_eq_iff h1]
  constructor
  · rintro ⟨h, -⟩ heq
    -- what is returned is the number of characters, and the hour has three
    have htext : (partsText [58] (timeParts 10000000)).length = 9 := by decide
    rw [formatTimeAndReturnSize, heq, Mem.snprintf_eq hsz, Mem.snprintf_eq hsz, htext,
      t.length_text, Option.some_inj, Prod.mk.injEq] at h
    exact absurd h.2 (by decide)
  · intro hne
    have hint (time : ℤ) (h : timeParts time = t.parts) : formatTimeINT m out size time =
        (m.snprintf out (sizeT size) (t.text [])).map Prod.fst := by
      rw [formatTimeINT, h, TimeOfDay.text]
      cases m.snprintf out (sizeT size) (partsText [] t.parts) <;> rfl
    have hmillis := t.timeParts_millis h1 hne
    have hplain := t.timeParts_plain
    exact ⟨by rw [formatTimeAndReturnSize, hmillis]; rfl,
      by rw [formatTimeAndReturnSize, hplain]; rfl, hint _ hmillis, hint _ hplain⟩

/-- The last millisecond of the day. -/
def lastMilli : TimeOfDay := ⟨23, 59, 59, 999, by decide, by decide, by decide, by decide⟩

theorem formatTime_millis_iff_last :
    formatTimeAndReturnSize (fun _ => List.replicate 9 0) 0 9 lastMilli.millis =
      Mem.snprintf (fun _ => List.replicate 9 0) 0 (sizeT 9) (lastMilli.text [58]) :=
  ((formatTime_millis_iff lastMilli (by decide) (fun _ => List.replicate 9 0) 0 9
    (by decide)).2 (by decide)).1

/-- One o'clock. -/
def oneOClock : TimeOfDay := ⟨1, 0, 0, 0, by decide, by decide, by decide, by decide⟩

/-- It is printed as `100:00:00`. -/
theorem not_formatTime_millis : ¬ ∀ (t : TimeOfDay) (m : Mem) (out : ℕ) (size : ℤ), 1 ≤ t.hour →
    sizeT size ≤ (m out).length →
    formatTimeAndReturnSize m out size t.millis = m.snprintf out (sizeT size) (t.text [58]) ∧
      formatTimeAndReturnSize m out size t.plain = m.snprintf out (sizeT size) (t.text [58]) ∧
      formatTimeINT m out size t.millis =
        (m.snprintf out (sizeT size) (t.text [])).map Prod.fst ∧
      formatTimeINT m out size t.plain =
        (m.snprintf out (sizeT size) (t.text [])).map Prod.fst := by
  intro h
  have hrun := (h oneOClock (fun _ => List.replicate 12 0) 0 12 (by decide) (by decide)).1
  have hlen := congrArg (Option.map Prod.snd) hrun
  exact absurd hlen (by decide)

end CppExperiment.STD
