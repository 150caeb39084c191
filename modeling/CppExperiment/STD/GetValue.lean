/-
  The accessors of CommonTools/STD.cc for the fields of a text:
  `STD::GetValue_KeepBlank`, `STD::GetValue_KeepReturn` and `STD::GetValue`,
  with `STD::ltrim`, `STD::rtrim` and `STD::alltrim`.

  * `readValue_eq`: the separators are counted down, and the field is copied.
  * `ltrim_eq`: the rest of the text is moved to the front with `strcpy`, which
    is undefined where what it reads and what it writes overlap.
  * `getValue_iff`: when the accessors agree with the vectors of
    `str::Split` and `str::SplitWithStrip`.
-/
import CppExperiment.Lib.Scan
import CppExperiment.StringFunc.Strip

namespace CppExperiment.STD

/-- `ltrim(str)` -/
def ltrim (m : Mem) (str : ℕ) : Option Mem := do
  let s ← Mem.scan (· = 32) m str (m str).length 0
  if s ≠ 0 then m.strcpy str 0 str s else some m

/-- `rtrim(str)` -/
def rtrim (m : Mem) (str : ℕ) : Option Mem := do
  let len ← m.strlen str
  let s ← Mem.scanBack (fun c => c = 32 ∨ c = 10) m str len
  m.store str s 0

/-- `alltrim(str)` -/
def alltrim (m : Mem) (str : ℕ) : Option Mem := do
  let m ← ltrim m str
  rtrim m str

/-- The first loop of the accessors; `ends` if a newline ends the text. -/
def skipValues (m : Mem) (src : ℕ) (ch : UInt8) (ends : Bool) :
    (fuel i : ℕ) → (num : ℤ) → Option ℕ
  | 0, _, _ => none
  | fuel + 1, i, num => do
    let c ← m.load src i
    if c ≠ 0 ∧ ¬ (ends ∧ c = 10) ∧ num ≠ 1 then
      skipValues m src ch ends fuel (i + 1) (if c = ch then num - 1 else num)
    else some i

/-- The second loop, and the terminator. -/
def copyValue (src dest : ℕ) (ch : UInt8) (ends : Bool) :
    (fuel : ℕ) → Mem → (i s0 : ℕ) → (size : ℤ) → Option Mem
  | 0, _, _, _, _ => none
  | fuel + 1, m, i, s0, size => do
    let c ← m.load src i
    if c ≠ 0 ∧ ¬ (ends ∧ c = 10) ∧ c ≠ ch ∧ size > 1 then
      let m ← m.store dest s0 c
      copyValue src dest ch ends fuel m (i + 1) (s0 + 1) (size - 1)
    else m.store dest s0 0

/-- Both loops. -/
def readValue (ends : Bool) (m : Mem) (src dest : ℕ) (size num : ℤ) (ch : UInt8) :
    Option Mem := do
  let i ← skipValues m src ch ends (m src).length 0 num
  copyValue src dest ch ends (m src).length m i 0 size

/-- `GetValue_KeepBlank(src, dest, size, num, ch)` -/
def getValueKeepBlank (m : Mem) (src dest : ℕ) (size num : ℤ) (ch : UInt8) : Option Mem :=
  if ch = 10 then readValue false m src dest size num ch
  else readValue true m src dest size num ch

/-- `GetValue_KeepReturn(src, dest, size, num, ch)`: both branches do the same. -/
def getValueKeepReturn (m : Mem) (src dest : ℕ) (size num : ℤ) (ch : UInt8) : Option Mem :=
  readValue false m src dest size num ch

/-- `GetValue(src, dest, size, num, ch)` -/
def getValue (m : Mem) (src dest : ℕ) (size num : ℤ) (ch : UInt8) : Option Mem := do
  let m ← getValueKeepBlank m src dest size num ch
  alltrim m dest

/-- What is left is the string `t` at `dest`; nothing else has changed. -/
def Gives (m : Mem) (dest : ℕ) (res : Option Mem) (t : List UInt8) : Prop :=
  ∃ m', res = some m' ∧ m.SameBut dest m' ∧ m'.IsStr dest t

/-- The number of spaces at the start. -/
def leadingSpaces (s : List UInt8) : ℕ := (s.takeWhile (· = 32)).length

variable {m : Mem} {src dest str i fuel k : ℕ} {size num : ℤ} {s t p u r : List UInt8}
  {c ch : UInt8} {ends : Bool}

/-! ## The field -/

/-- A text without the separator is stepped over. -/
theorem skipValues_text (hat : m.At src i u) (h0 : 0 ∉ u) (h10 : 10 ∉ u) (hch : ch ∉ u)
    (hnum : num ≠ 1) :
    skipValues m src ch ends (fuel + u.length) i num =
      skipValues m src ch ends fuel (i + u.length) num := by
  induction u generalizing i with
  | nil => rfl
  | cons c u ih =>
    rw [List.mem_cons, not_or] at h0 h10 hch
    rw [List.length_cons, ← Nat.add_assoc, skipValues, hat.load, Option.bind_eq_bind,
      Option.bind_some, if_pos ⟨Ne.symm h0.1, fun h => h10.1 h.2.symm, hnum⟩,
      if_neg (Ne.symm hch.1), ih hat.tail h0.2 h10.2 hch.2, Nat.add_assoc, Nat.add_comm 1]

/-- The loop stops at the terminator, or at the field. -/
theorem skipValues_stop (hload : m.load src i = some c) (h : c = 0 ∨ num = 1) :
    skipValues m src ch ends (fuel + 1) i num = some i := by
  rw [skipValues, hload, Option.bind_eq_bind, Option.bind_some, if_neg]
  rintro ⟨hc, -, hnum⟩
  exact h.elim hc hnum

/-- **Up to the field**: what is left of the text starts with it.  The induction
    goes from one separator to the next. -/
theorem skipValues_eq (hat : m.At src i (s ++ [0])) (h0 : 0 ∉ s) (h10 : 10 ∉ s)
    (hnum : num = k + 1) (hfuel : s.length < fuel) :
    ∃ j r, skipValues m src ch ends fuel i num = some j ∧ m.At src j (r ++ [0]) ∧ r <:+ s ∧
      fieldAt ch k s = r.takeWhile (· ≠ ch) := by
  induction s using split_induction (c := ch) generalizing i num k fuel with
  | last s hs =>
    rw [fieldAt_last hs]
    by_cases hk : k = 0
    · obtain ⟨fuel, rfl⟩ := Nat.exists_eq_succ_of_ne_zero (Nat.ne_zero_of_lt hfuel)
      obtain ⟨c, hc⟩ : ∃ c, m.load src i = some c := by
        cases s with
        | nil => exact ⟨0, hat.load⟩
        | cons c s => exact ⟨c, hat.load⟩
      refine ⟨i, s, skipValues_stop hc (.inr (by omega)), hat, List.suffix_rfl, ?_⟩
      rw [if_pos hk, takeWhile_last hs]
    · obtain ⟨fuel, rfl⟩ := Nat.exists_eq_add_of_lt hfuel
      have hend := hat.drop
      have hadd : s.length + fuel + 1 = fuel + 1 + s.length := by omega
      refine ⟨i + s.length, [], ?_, hend, List.nil_suffix, by rw [if_neg hk]; rfl⟩
      rw [hadd, skipValues_text hat.of_append h0 h10 hs (by omega),
        skipValues_stop hend.load (.inl rfl)]
  | step u s hu ih =>
    rw [fieldAt_append_cons hu]
    by_cases hk : k = 0
    · obtain ⟨fuel, rfl⟩ := Nat.exists_eq_succ_of_ne_zero (Nat.ne_zero_of_lt hfuel)
      obtain ⟨c, hc⟩ : ∃ c, m.load src i = some c := by
        cases u with
        | nil => exact ⟨ch, hat.load⟩
        | cons c u => exact ⟨c, hat.load⟩
      refine ⟨i, _, skipValues_stop hc (.inr (by omega)), hat, List.suffix_rfl, ?_⟩
      rw [if_pos hk, takeWhile_append_cons hu]
    · rw [List.mem_append, List.mem_cons, not_or, not_or] at h0 h10
      rw [List.length_append, List.length_cons] at hfuel
      rw [List.append_assoc, List.cons_append] at hat
      have hsep := hat.drop
      obtain ⟨j, r, hrun, hj, hr, hfield⟩ := @ih (i + u.length + 1) (fuel - u.length - 1) (k - 1)
        (num - 1) hsep.tail h0.2.2 h10.2.2 (by omega) (by omega)
      have hadd : fuel = fuel - u.length - 1 + 1 + u.length := by omega
      refine ⟨j, r, ?_, hj, hr.trans ⟨u ++ [ch], by simp⟩, by rw [if_neg hk, hfield]⟩
      rw [hadd, skipValues_text hat.of_append h0.1 h10.1 hu (by omega), skipValues, hsep.load,
        Option.bind_eq_bind, Option.bind_some,
        if_pos ⟨Ne.symm h0.2.1, fun h => h10.2.1 h.2.symm, by omega⟩, if_pos rfl, hrun]

/-- The field is copied, `p` what is copied before. -/
theorem copyValue_put (hne : src ≠ dest) (hat : m.At src i (r ++ [0])) (h0 : 0 ∉ r) (h10 : 10 ∉ r)
    (hsize : (r.length : ℤ) < size) (hsz : p.length + size ≤ (m dest).length)
    (hfuel : r.length < fuel) :
    copyValue src dest ch ends fuel (m.put dest p) i p.length size =
      some (m.put dest (p ++ r.takeWhile (· ≠ ch) ++ [0])) := by
  induction r generalizing fuel i p size with
  | nil =>
    obtain ⟨fuel, rfl⟩ := Nat.exists_eq_succ_of_ne_zero (Nat.ne_zero_of_lt hfuel)
    rw [List.length_nil] at hsize
    rw [copyValue, Mem.load_put_ne hne, hat.load, Option.bind_eq_bind, Option.bind_some,
      if_neg fun h => h.1 rfl, Mem.store_put rfl (by omega), List.takeWhile_nil, List.append_nil]
  | cons c r ih =>
    obtain ⟨fuel, rfl⟩ := Nat.exists_eq_succ_of_ne_zero (Nat.ne_zero_of_lt hfuel)
    rw [List.mem_cons, not_or] at h0 h10
    rw [List.length_cons] at hsize hfuel
    rw [copyValue, Mem.load_put_ne hne, hat.load, Option.bind_eq_bind, Option.bind_some]
    by_cases hc : c = ch
    · rw [if_neg fun h => h.2.2.1 hc, Mem.store_put rfl (by omega),
        List.takeWhile_cons_of_neg (by simp [hc]), List.append_nil]
    · have ih := @ih (i + 1) fuel (size - 1) (p ++ [c]) hat.tail h0.2 h10.2 (by omega)
        (by rw [List.length_append, List.length_singleton]; omega) (by omega)
      rw [List.length_append, List.length_singleton, List.append_assoc p [c],
        List.singleton_append] at ih
      rw [if_pos ⟨Ne.symm h0.1, fun h => h10.1 h.2.symm, hc, by omega⟩,
        Mem.store_put rfl (by omega), Option.bind_eq_bind, Option.bind_some, ih,
        List.takeWhile_cons_of_pos (by simp [hc])]

/-- **The field is left**, whether or not a newline would end the text. -/
theorem readValue_eq (hne : src ≠ dest) (hv : m.IsStr src s) (h10 : 10 ∉ s) (hnum : 1 ≤ num)
    (hsize : (s.length : ℤ) < size) (hsz : size ≤ (m dest).length) :
    readValue ends m src dest size num ch =
      some (m.put dest (fieldAt ch (num - 1).toNat s ++ [0])) := by
  obtain ⟨j, r, hrun, hj, hr, hfield⟩ := @skipValues_eq m src 0 (m src).length (num - 1).toNat num
    s ch ends hv.at_end hv.1 h10 (by omega) hv.length_lt
  have hlen := hr.length_le
  have hlt := hv.length_lt
  have hcopy := @copyValue_put m src dest j (m src).length size [] r ch ends hne hj
    (fun h => hv.1 (hr.subset h)) (fun h => h10 (hr.subset h)) (by omega)
    (by rw [List.length_nil]; omega) (by omega)
  rw [Mem.put_nil, List.nil_append] at hcopy
  rw [readValue, hrun, Option.bind_eq_bind, Option.bind_some, hfield]
  exact hcopy

/-! ## Trimming -/

/-- **The front**: the rest is moved, if it is shorter than what it is moved
    over. -/
theorem ltrim_eq (hv : m.IsStr str (List.replicate k 32 ++ t)) (hhead : t.head? ≠ some 32) :
    ltrim m str =
      if k = 0 then some m else if k ≤ t.length then none else some (m.put str (t ++ [0])) := by
  have h0 : 0 ∉ t := fun h => hv.1 (List.mem_append_right _ h)
  rw [ltrim, hv.scan_front hhead (by decide), Option.bind_eq_bind, Option.bind_some]
  by_cases hk : k = 0
  · rw [if_neg (not_not.2 hk), if_pos hk]
  · have hat : m.At str k (t ++ [0]) := by
      have h := hv.at_end
      rw [List.append_assoc] at h
      simpa using h.drop
    rw [if_pos hk, if_neg hk, hat.strcpy h0]

/-- **The end.** -/
theorem rtrim_eq (hv : m.IsStr str (t ++ List.replicate k 32)) (hlast : t.getLast? ≠ some 32)
    (h10 : 10 ∉ t) : ∃ m', rtrim m str = some m' ∧ m.SameBut str m' ∧ m'.IsStr str t := by
  have hlt := hv.length_lt
  have hscan := Mem.scanBack_eq (p := fun c => c = 32 ∨ c = 10) hv.at
    (fun x hx => by simp [List.eq_of_mem_replicate hx])
    (fun x hx => by
      rw [decide_eq_true_eq]
      rintro (rfl | rfl)
      · exact hlast hx
      · exact h10 (List.mem_of_getLast? hx))
  rw [List.length_append] at hlt
  obtain ⟨m', hstore, hsame, hstr⟩ := Mem.isStr_store hv.at.of_append
    (fun h => hv.1 (List.mem_append_left _ h)) (by omega)
  refine ⟨m', ?_, hsame, hstr⟩
  rw [rtrim, hv.strlen, Option.bind_eq_bind, Option.bind_some, hscan, Option.bind_some, hstore]

theorem leadingSpaces_front (k : ℕ) (hhead : t.head? ≠ some 32) :
    leadingSpaces (List.replicate k 32 ++ t) = k := by
  rw [leadingSpaces, takeWhile_front k hhead, List.length_replicate]

/-- What is moved to the front reaches into what it is copied from. -/
theorem alltrim_overlap (hv : m.IsStr str s) (hlead : leadingSpaces s ≠ 0)
    (hover : 2 * leadingSpaces s ≤ s.length) : alltrim m str = none := by
  obtain ⟨k, t, rfl, hhead⟩ := exists_front 32 s
  rw [leadingSpaces_front k hhead] at hlead hover
  rw [List.length_append, List.length_replicate] at hover
  rw [alltrim, ltrim_eq hv hhead, if_neg hlead, if_pos (by omega)]
  rfl

/-- **Both ends**, if what is moved to the front is not read behind what is
    written. -/
theorem alltrim_iff (hv : m.IsStr str s) (h10 : 10 ∉ s) :
    Gives m str (alltrim m str) (trim 32 s) ↔
      leadingSpaces s = 0 ∨ s.length < 2 * leadingSpaces s := by
  obtain ⟨k, t, rfl, hhead⟩ := exists_front 32 s
  obtain ⟨q, n, rfl, hlast⟩ := exists_back 32 t
  have hhead' : q.head? ≠ some 32 := by
    intro h
    exact hhead (by rw [List.head?_append, h, Option.some_or])
  have htrim : trim 32 (List.replicate k 32 ++ (q ++ List.replicate n 32)) = q := by
    rw [trim_front, trim_back, trim_eq_self hhead' hlast]
  have h10q : 10 ∉ q := fun h => h10 (by simp [h])
  have h0 : 0 ∉ q ++ List.replicate n 32 := fun h => hv.1 (List.mem_append_right _ h)
  have hlen : (List.replicate k 32 ++ (q ++ List.replicate n 32)).length =
      k + (q ++ List.replicate n 32).length := by
    rw [List.length_append, List.length_replicate]
  rw [leadingSpaces_front k hhead, htrim, alltrim, ltrim_eq hv hhead, hlen]
  by_cases hk : k = 0
  · subst hk
    rw [List.replicate_zero, List.nil_append] at hv
    obtain ⟨m', hrun, hsame, hstr⟩ := rtrim_eq hv hlast h10q
    rw [if_pos rfl]
    exact iff_of_true ⟨m', hrun, hsame, hstr⟩ (.inl rfl)
  · rw [if_neg hk]
    by_cases hover : k ≤ (q ++ List.replicate n 32).length
    · rw [if_pos hover]
      refine iff_of_false ?_ (by omega)
      rintro ⟨m', h, -⟩
      cases h
    · have hlt := hv.length_lt
      rw [hlen] at hlt
      have hroom : (q ++ List.replicate n 32 ++ [0]).length ≤ (m str).length := by
        rw [List.length_append, List.length_singleton]
        omega
      obtain ⟨m', hrun, hsame, hstr⟩ := rtrim_eq (Mem.isStr_put h0) hlast h10q
      rw [if_neg hover]
      exact iff_of_true ⟨m', hrun, (Mem.sameBut_put hroom).trans hsame, hstr⟩ (.inr (by omega))

/-! ## The accessors -/

theorem gives_readValue (hne : src ≠ dest) (hv : m.IsStr src s) (h10 : 10 ∉ s) (hnum : 1 ≤ num)
    (hsize : (s.length : ℤ) < size) (hsz : size ≤ (m dest).length) :
    Gives m dest (readValue ends m src dest size num ch) (fieldAt ch (num - 1).toNat s) := by
  have hsub := fieldAt_sublist ch (num - 1).toNat s
  have hlen := hsub.length_le
  refine ⟨_, readValue_eq hne hv h10 hnum hsize hsz, Mem.sameBut_put ?_,
    Mem.isStr_put fun h => hv.1 (hsub.subset h)⟩
  rw [List.length_append, List.length_singleton]
  omega

theorem gives_getValueKeepBlank (hne : src ≠ dest) (hv : m.IsStr src s) (h10 : 10 ∉ s)
    (hnum : 1 ≤ num) (hsize : (s.length : ℤ) < size) (hsz : size ≤ (m dest).length) :
    Gives m dest (getValueKeepBlank m src dest size num ch) (fieldAt ch (num - 1).toNat s) := by
  rw [getValueKeepBlank]
  split_ifs
  · exact gives_readValue hne hv h10 hnum hsize hsz
  · exact gives_readValue hne hv h10 hnum hsize hsz

/-- **The trimmed field is left**, if it has no spaces in front, or more of
    them than other characters. -/
theorem gives_getValue_iff (hne : src ≠ dest) (hv : m.IsStr src s) (h10 : 10 ∉ s) (hnum : 1 ≤ num)
    (hsize : (s.length : ℤ) < size) (hsz : size ≤ (m dest).length) :
    Gives m dest (getValue m src dest size num ch) (trim 32 (fieldAt ch (num - 1).toNat s)) ↔
    leadingSpaces (fieldAt ch (num - 1).toNat s) = 0 ∨
      (fieldAt ch (num - 1).toNat s).length <
        2 * leadingSpaces (fieldAt ch (num - 1).toNat s) := by
  obtain ⟨m', hblank, hsame, hstr⟩ : Gives m dest (getValueKeepBlank m src dest size num ch)
    (fieldAt ch (num - 1).toNat s) := gives_getValueKeepBlank hne hv h10 hnum hsize hsz
  have hsub := fieldAt_sublist ch (num - 1).toNat s
  rw [← alltrim_iff hstr fun h => h10 (hsub.subset h), getValue, hblank, Option.bind_eq_bind,
    Option.bind_some]
  exact exists_congr fun m' => and_congr_right fun _ => and_congr_left fun _ =>
    ⟨hsame.symm.trans, hsame.trans⟩

/-- **When the accessors agree with the vectors**: if the field has no spaces in
    front, or more of them than other characters. -/
theorem getValue_iff (hne : src ≠ dest) (hv : m.IsStr src s) (h10 : 10 ∉ s) (hnum : 1 ≤ num)
    (hsize : (s.length : ℤ) < size) (hsz : size ≤ (m dest).length) :
    (∃ v w, StringFunc.split s ch = some v ∧ StringFunc.splitWithStrip s ch = some w ∧
      Gives m dest (getValueKeepBlank m src dest size num ch) (v[(num - 1).toNat]?.getD []) ∧
      Gives m dest (getValueKeepReturn m src dest size num ch) (v[(num - 1).toNat]?.getD []) ∧
      Gives m dest (getValue m src dest size num ch) (w[(num - 1).toNat]?.getD [])) ↔
    leadingSpaces (fieldAt ch (num - 1).toNat s) = 0 ∨
      (fieldAt ch (num - 1).toNat s).length <
        2 * leadingSpaces (fieldAt ch (num - 1).toNat s) := by
  rw [← gives_getValue_iff hne hv h10 hnum hsize hsz]
  constructor
  · rintro ⟨v, w, -, hw, -, -, h⟩
    rw [StringFunc.splitWithStrip_eq, Option.some_inj] at hw
    rwa [← hw, StringFunc.getD_splitWithStrip] at h
  · intro h
    refine ⟨_, _, StringFunc.split_eq s ch, StringFunc.splitWithStrip_eq s ch, ?_, ?_, ?_⟩
    · rw [fieldAt_pieces]
      exact gives_getValueKeepBlank hne hv h10 hnum hsize hsz
    · rw [fieldAt_pieces]
      exact gives_readValue hne hv h10 hnum hsize hsz
    · rwa [StringFunc.getD_splitWithStrip]

/-- The second field of `a,b`. -/
theorem getValue_iff_second : ∃ v w, StringFunc.split [97, 44, 98] 44 = some v ∧
    StringFunc.splitWithStrip [97, 44, 98] 44 = some w ∧
    Gives (fun b => [[97, 44, 98, 0], [7, 7, 7, 7]].getD b []) 1
      (getValueKeepBlank (fun b => [[97, 44, 98, 0], [7, 7, 7, 7]].getD b []) 0 1 4 2 44)
      (v[(2 - 1 : ℤ).toNat]?.getD []) ∧
    Gives (fun b => [[97, 44, 98, 0], [7, 7, 7, 7]].getD b []) 1
      (getValueKeepReturn (fun b => [[97, 44, 98, 0], [7, 7, 7, 7]].getD b []) 0 1 4 2 44)
      (v[(2 - 1 : ℤ).toNat]?.getD []) ∧
    Gives (fun b => [[97, 44, 98, 0], [7, 7, 7, 7]].getD b []) 1
      (getValue (fun b => [[97, 44, 98, 0], [7, 7, 7, 7]].getD b []) 0 1 4 2 44)
      (w[(2 - 1 : ℤ).toNat]?.getD []) :=
  (@getValue_iff (fun b => [[97, 44, 98, 0], [7, 7, 7, 7]].getD b []) 0 1 4 2 [97, 44, 98] 44
    (by decide) ⟨by decide, [], rfl⟩ (by decide) (by decide) (by decide) (by decide)).2
    (.inl (by decide))

/-- The field ` a`: its letter is moved over the space, and its terminator over
    the letter. -/
theorem getValue_space : ¬ ∃ v w, StringFunc.split [32, 97] 44 = some v ∧
    StringFunc.splitWithStrip [32, 97] 44 = some w ∧
    Gives (fun b => [[32, 97, 0], [7, 7, 7]].getD b []) 1
      (getValueKeepBlank (fun b => [[32, 97, 0], [7, 7, 7]].getD b []) 0 1 3 1 44)
      (v[(1 - 1 : ℤ).toNat]?.getD []) ∧
    Gives (fun b => [[32, 97, 0], [7, 7, 7]].getD b []) 1
      (getValueKeepReturn (fun b => [[32, 97, 0], [7, 7, 7]].getD b []) 0 1 3 1 44)
      (v[(1 - 1 : ℤ).toNat]?.getD []) ∧
    Gives (fun b => [[32, 97, 0], [7, 7, 7]].getD b []) 1
      (getValue (fun b => [[32, 97, 0], [7, 7, 7]].getD b []) 0 1 3 1 44)
      (w[(1 - 1 : ℤ).toNat]?.getD []) := by
  have hnone : getValue (fun b => [[32, 97, 0], [7, 7, 7]].getD b []) 0 1 3 1 44 = none := rfl
  rintro ⟨v, w, -, -, -, -, m', h, -⟩
  rw [hnone] at h
  cases h

end CppExperiment.STD
