/-
  Dates as text: the constructor of `pobo::Date` from a string, and
  `to_string`.

  The constructor copies the text, and reads the day, the month and the year
  from its end, each behind a new terminator (`read_field`).
  `date_text`: it inverts `to_string` on texts of eight digits, and
  `to_string` inverts it on valid dates.
-/
import CppExperiment.Lib.Decimal
import CppExperiment.Pobo.Runs

namespace CppExperiment.Pobo

namespace Date

/-- `Date(const char *date)`; `temp` is the block of its array of 9 bytes. -/
def ofString (m : Mem) (date temp : ℕ) : Option Date := do
  let m ← Mem.strncpy temp date 9 m 0
  let m ← m.store temp 8 0
  let day ← m.atoi temp 6
  let m ← m.store temp 6 0
  let month ← m.atoi temp 4
  let m ← m.store temp 4 0
  let year ← m.atoi temp 0
  some (init year month day)

/-- `%04d%02d%02d` -/
def text (d : Date) : List UInt8 := printInt 4 d.year ++ printInt 2 d.month ++ printInt 2 d.day

/-- `std::string to_string()`, through an array of 16 bytes. -/
def toString (d : Date) : Option (List UInt8) := do
  let (m, _) ← Mem.snprintf (fun _ => List.replicate 16 0) 0 16 d.text
  m.cstrAt 0 0

/-- A date is valid: its members are those of a civil day, and its day number
    is theirs. -/
def Valid (d : Date) : Prop := d.days = d.toDays ∧ ∃ c : CivilDay, d.Shows c

theorem valid_init (c : CivilDay) : (init c.year c.month c.day).Valid := ⟨rfl, c, rfl, rfl, rfl⟩

/-- The operators make valid dates. -/
theorem valid_fromDays (d : Date) {n : ℤ} (hn : 0 ≤ n) : (d.fromDays n).Valid :=
  Runs.fromDays_coherent d hn

end Date

variable {m : Mem} {date temp b : ℕ} {s t p y mo dd : List UInt8}

/-! ## Reading -/

/-- **One field**: the digits at the end are read, and cut off. -/
theorem read_field (h : m.IsStr b (p ++ s)) (hs : ∀ c ∈ s, IsDigit c)
    (hint : digitsValue s < 2 ^ 31) : m.atoi b p.length = some (digitsValue s : ℤ) ∧
      ∃ m', m.store b p.length 0 = some m' ∧ m'.IsStr b p := by
  have hat := h.at_end
  have hlt := h.length_lt
  rw [List.append_assoc] at hat
  rw [List.length_append] at hlt
  have hend := hat.drop
  rw [Nat.zero_add] at hend
  obtain ⟨m', hstore, -, hstr⟩ := Mem.isStr_store hat.of_append
    (fun h0 => h.1 (List.mem_append_left _ h0)) (by omega)
  exact ⟨hend.atoi hs hint, m', hstore, hstr⟩

/-- A text of eight digits. -/
structure EightDigits (y mo dd t : List UInt8) : Prop where
  eq : t = y ++ mo ++ dd
  year : ∀ c ∈ y, IsDigit c
  month : ∀ c ∈ mo, IsDigit c
  day : ∀ c ∈ dd, IsDigit c
  length_year : y.length = 4
  length_month : mo.length = 2
  length_day : dd.length = 2

/-- The eight digits as a text and their fields. -/
theorem eightDigits (hlen : t.length = 8) (ht : ∀ c ∈ t, IsDigit c) :
    EightDigits (t.take 4) ((t.drop 4).take 2) (t.drop 6) t where
  eq := by
    have hdrop : t.drop 6 = (t.drop 4).drop 2 := by rw [List.drop_drop]
    rw [List.append_assoc, hdrop, List.take_append_drop, List.take_append_drop]
  year := fun c hc => ht c (List.mem_of_mem_take hc)
  month := fun c hc => ht c (List.mem_of_mem_drop (List.mem_of_mem_take hc))
  day := fun c hc => ht c (List.mem_of_mem_drop hc)
  length_year := by rw [List.length_take]; omega
  length_month := by rw [List.length_take, List.length_drop]; omega
  length_day := by rw [List.length_drop]; omega

namespace EightDigits
variable (h : EightDigits y mo dd t)
include h

/-- **Eight digits are read.** -/
theorem ofString_eq (hne : date ≠ temp) (htemp : (m temp).length = 9) (hstr : m.IsStr date t) :
    Date.ofString m date temp =
      some (Date.init (digitsValue y) (digitsValue mo) (digitsValue dd)) := by
  obtain ⟨rfl, hy, hmo, hdd, hly, hlmo, hldd⟩ := h
  have hvalue {s : List UInt8} (hs : ∀ c ∈ s, IsDigit c) (hle : s.length ≤ 9) :
      digitsValue s < 2 ^ 31 :=
    (digitsValue_lt hs).trans_le ((Nat.pow_le_pow_right (by decide) hle).trans (by decide))
  have hlen6 : (y ++ mo).length = 6 := by rw [List.length_append, hly, hlmo]
  have hlen8 : (y ++ mo ++ dd).length = 8 := by rw [List.length_append, hlen6, hldd]
  have hcopy := @Mem.strncpy_fill m date temp (y ++ mo ++ dd) [] 9 hne hstr.at_end hstr.1
    (by omega) (by rw [List.length_nil]; omega)
  rw [Mem.put_nil, List.nil_append, hlen8] at hcopy
  have htext : (m.put temp (y ++ mo ++ dd ++ List.replicate (9 - 8) 0)).IsStr temp
      (y ++ mo ++ dd) := Mem.isStr_put hstr.1
  obtain ⟨m₁, hstore₁, -, hstr₁⟩ := Mem.isStr_store htext.at htext.1 htext.length_lt
  -- the day, the month and the year, from the end
  obtain ⟨hday, m₂, hstore₂, hstr₂⟩ := read_field hstr₁ hdd (hvalue hdd (by omega))
  obtain ⟨hmonth, m₃, hstore₃, hstr₃⟩ := read_field hstr₂ hmo (hvalue hmo (by omega))
  have hyear := hstr₃.at_end.atoi hy (hvalue hy (by omega))
  rw [hlen8] at hstore₁
  rw [hlen6] at hday hstore₂
  rw [hly] at hmonth hstore₃
  rw [List.length_nil] at hcopy
  simp only [Date.ofString, hcopy, hstore₁, hday, hstore₂, hmonth, hstore₃, hyear,
    Option.bind_eq_bind, Option.bind_some]

/-- **Eight digits are printed.** -/
theorem toString_eq {d : Date} (hy : d.year = digitsValue y) (hmo : d.month = digitsValue mo)
    (hdd : d.day = digitsValue dd) : d.toString = some t := by
  have hprint {x : ℤ} {s : List UInt8} {k : ℕ} (hx : x = digitsValue s) (hs : ∀ c ∈ s, IsDigit c)
      (hk : s.length = k + 1) : printInt (k + 1) x = s := by
    rw [hx, printInt_nonneg (Int.natCast_nonneg _), Int.toNat_natCast, ← hk,
      printDecimal_value hs (List.ne_nil_of_length_eq_add_one hk)]
  have htext : d.text = t := by
    rw [Date.text, hprint hy h.year h.length_year, hprint hmo h.month h.length_month,
      hprint hdd h.day h.length_day, h.eq]
  have hlen : t.length = 8 := by
    rw [h.eq, List.length_append, List.length_append, h.length_year, h.length_month, h.length_day]
  have h0 : 0 ∉ t := by
    have hzero {s : List UInt8} (hs : ∀ c ∈ s, IsDigit c) : 0 ∉ s :=
      notMem_of_isDigit hs (by decide)
    rw [h.eq, List.mem_append, List.mem_append, not_or, not_or]
    exact ⟨⟨hzero h.year, hzero h.month⟩, hzero h.day⟩
  have hsize : t.length < 16 := by omega
  obtain ⟨m', hrun, -, hstr⟩ := @Mem.snprintf_isStr t (fun _ => List.replicate 16 0) 0 16 hsize
    (by decide) h0
  rw [Date.toString, htext, hrun]
  exact hstr.cstrAt

end EightDigits

/-- The text of a valid date. -/
theorem eightDigits_text {d : Date} (hd : d.Valid) (hy : 0 ≤ d.year) (hy' : d.year ≤ 9999) :
    EightDigits (printDecimal 4 d.year.toNat) (printDecimal 2 d.month.toNat)
      (printDecimal 2 d.day.toNat) d.text := by
  obtain ⟨-, c, -, hmonth, hday⟩ := hd
  have hm := c.month_range
  have hdd := c.day_range
  have h31 := (monthDays_cases c).1
  refine ⟨?_, fun c => isDigit_printDecimal, fun c => isDigit_printDecimal,
    fun c => isDigit_printDecimal, length_printDecimal (by decide) (by omega),
    length_printDecimal (by decide) (by omega), length_printDecimal (by decide) (by omega)⟩
  rw [Date.text, printInt_nonneg hy, printInt_nonneg (by omega), printInt_nonneg (by omega)]

/-- **Dates and texts.**  A text of eight digits, whether or not it is that of a
    valid date, is printed again as it was read; and a valid date from the years
    0 to 9999 is read again as it was printed. -/
theorem date_text :
    (∀ t : List UInt8, t.length = 8 → (∀ c ∈ t, IsDigit c) → ∀ (m : Mem) (date temp : ℕ),
      date ≠ temp → (m temp).length = 9 → m.IsStr date t →
      ∃ d, Date.ofString m date temp = some d ∧ d.toString = some t) ∧
    ∀ d : Date, d.Valid → 0 ≤ d.year → d.year ≤ 9999 → ∃ t, d.toString = some t ∧
      ∀ (m : Mem) (date temp : ℕ), date ≠ temp → (m temp).length = 9 → m.IsStr date t →
      ∃ e, Date.ofString m date temp = some e ∧ e.year = d.year ∧ e.month = d.month ∧
        e.day = d.day ∧ e.eq d = true := by
  constructor
  · intro t hlen ht m date temp hne htemp hstr
    have h := eightDigits hlen ht
    exact ⟨_, h.ofString_eq hne htemp hstr, h.toString_eq rfl rfl rfl⟩
  · intro d hd hy hy'
    have h := eightDigits_text hd hy hy'
    obtain ⟨hdays, c, -, hmonth, hday⟩ := hd
    have hm := c.month_range
    have hdd := c.day_range
    have hvalue {x : ℤ} (hx : 0 ≤ x) (k : ℕ) :
        x = (digitsValue (printDecimal k x.toNat) : ℤ) := by
      rw [value_printDecimal, Int.toNat_of_nonneg hx]
    have hyear := hvalue hy 4
    have hmonth := hvalue (x := d.month) (by omega) 2
    have hday := hvalue (x := d.day) (by omega) 2
    refine ⟨d.text, h.toString_eq hyear hmonth hday, fun m date temp hne htemp hstr => ?_⟩
    refine ⟨_, h.ofString_eq hne htemp hstr, hyear.symm, hmonth.symm, hday.symm, ?_⟩
    rw [Date.eq, decide_eq_true_eq, hdays, ← hyear, ← hmonth, ← hday]
    rfl

/-- A text that is no date, and the leap day of 2024. -/
theorem date_text_leapDay :
    (∃ d, Date.ofString (fun b => if b = 0 then [48, 48, 48, 49, 57, 57, 48, 48, 0]
      else List.replicate 9 7) 0 1 = some d ∧
      d.toString = some [48, 48, 48, 49, 57, 57, 48, 48]) ∧
    ∃ t, (Date.init 2024 2 29).toString = some t ∧ ∀ (m : Mem) (date temp : ℕ), date ≠ temp →
      (m temp).length = 9 → m.IsStr date t → ∃ e, Date.ofString m date temp = some e ∧
        e.year = 2024 ∧ e.month = 2 ∧ e.day = 29 ∧ e.eq (Date.init 2024 2 29) = true :=
  ⟨date_text.1 [48, 48, 48, 49, 57, 57, 48, 48] rfl (by simp [isDigit_iff]) _ 0 1 (by decide) rfl
      ⟨by decide, [], rfl⟩,
    date_text.2 (Date.init 2024 2 29) (Date.valid_init leapDay) (by decide) (by decide)⟩

end CppExperiment.Pobo
