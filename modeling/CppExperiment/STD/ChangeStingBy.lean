/-
  `STD::ChangeStingBy` (CommonTools/STD.cc): a text with entities for `|` and
  `&`.

  * `changeLoop_run`: as long as there is room, the loop writes one character
    after the other.
  * `changeStingBy_take`: it ends after as many characters as `num` says, the
    length of the source as an `int`.
  * `changeStingBy_iff`: when it ends behind the longest start that fits.
-/
import CppExperiment.Lib.LetterCode
import CppExperiment.STD.Base64

namespace CppExperiment.STD

/-- The loop of `ChangeStingBy` and what follows it, with `num` characters to
    go.  `dst_num` is the index of `pdst`: both are `j`. -/
def changeLoop (dst src : ℕ) (dstLen : ℤ) : (num : ℕ) → Mem → (i j : ℕ) → Option Mem
  | 0, m, _, j => m.store dst j 0
  | num + 1, m, i, j => do
    let c ← m.load src i
    if c = 0 then m.store dst j 0
    else if c = 124 then
      let dstNum ← addInt j 3
      if dstNum ≥ dstLen then m.store dst j 0
      else
        let m ← m.storeAll dst j [38, 49, 59]
        changeLoop dst src dstLen num m (i + 1) (j + 3)
    else if c = 38 then
      let dstNum ← addInt j 3
      if dstNum ≥ dstLen then m.store dst j 0
      else
        let m ← m.storeAll dst j [38, 50, 59]
        changeLoop dst src dstLen num m (i + 1) (j + 3)
    else
      let dstNum ← addInt j 1
      if dstNum ≥ dstLen then m.store dst j 0
      else
        let m ← m.store dst j c
        changeLoop dst src dstLen num m (i + 1) (j + 1)

/-- `ChangeStingBy(dst, src, dst_len)` -/
def changeStingBy (m : Mem) (dst src : ℕ) (dstLen : ℤ) : Option Mem := do
  let len ← m.strlen src
  let num ← addInt (toInt len) 1
  changeLoop dst src dstLen (num - 1).toNat m 0 0

/-! ## The entities -/

/-- What is written for a character. -/
def entity (c : UInt8) : List UInt8 :=
  if c = 124 then [38, 49, 59] else if c = 38 then [38, 50, 59] else [c]

/-- The text with its entities replaced. -/
def unentity : List UInt8 → List UInt8
  | [] => []
  | [c] => [c]
  | [c, d] => [c, d]
  | c :: d :: e :: s =>
    if c = 38 ∧ d = 49 ∧ e = 59 then 124 :: unentity s
    else if c = 38 ∧ d = 50 ∧ e = 59 then 38 :: unentity s
    else c :: unentity (d :: e :: s)

/-- The longest start of `s` whose encoding takes less than `n` bytes. -/
def LongestEncoded (s : List UInt8) (n : ℤ) (u : List UInt8) : Prop :=
  (u <+: s ∧ (u.flatMap entity).length < n) ∧
    ∀ u', u' <+: s → (u'.flatMap entity).length < n → u' <+: u

variable {m : Mem} {dst src num i j : ℕ} {dstLen : ℤ} {p s u : List UInt8} {c : UInt8}

theorem entity_cases (c : UInt8) : entity c = [38, 49, 59] ∧ c = 124 ∨
    entity c = [38, 50, 59] ∧ c = 38 ∨ entity c = [c] ∧ c ≠ 124 ∧ c ≠ 38 := by
  rw [entity]
  split_ifs with h h'
  · exact .inl ⟨rfl, h⟩
  · exact .inr (.inl ⟨rfl, h'⟩)
  · exact .inr (.inr ⟨rfl, h, h'⟩)

theorem unentity_cons (h : c ≠ 38) (s : List UInt8) : unentity (c :: s) = c :: unentity s := by
  match s with
  | [] => rfl
  | [d] => rfl
  | d :: e :: s => rw [unentity, if_neg (mt And.left h), if_neg (mt And.left h)]

/-- **Replacing the entities** gives the text back. -/
theorem unentity_flatMap (s : List UInt8) : unentity (s.flatMap entity) = s := by
  refine decode_flatMap rfl (fun c s => ?_) s
  rcases entity_cases c with ⟨h, rfl⟩ | ⟨h, rfl⟩ | ⟨h, -, h38⟩
  · rw [h]; rfl
  · rw [h]; rfl
  · rw [h, List.singleton_append, unentity_cons h38]

theorem bar_notMem (s : List UInt8) : 124 ∉ s.flatMap entity := by
  refine notMem_flatMap fun c _ => ?_
  rcases entity_cases c with ⟨h, -⟩ | ⟨h, -⟩ | ⟨h, hne, -⟩
  · rw [h]; decide
  · rw [h]; decide
  · rw [h, List.mem_singleton]; exact Ne.symm hne

theorem zero_notMem_entity (h0 : 0 ∉ s) : 0 ∉ s.flatMap entity := by
  refine notMem_flatMap fun c hc => ?_
  rcases entity_cases c with ⟨h, -⟩ | ⟨h, -⟩ | ⟨h, -⟩
  · rw [h]; decide
  · rw [h]; decide
  · rw [h, List.mem_singleton]
    rintro rfl
    exact h0 hc

/-- A character behind the longest start does not fit. -/
theorem LongestEncoded.full (h : LongestEncoded s dstLen u) {r : List UInt8}
    (hs : s = u ++ c :: r) : dstLen ≤ (u.flatMap entity).length + (entity c).length := by
  by_contra hlt
  have hmax := h.2 (u ++ [c]) ⟨r, by rw [hs, List.append_assoc]; rfl⟩ (by
    rw [List.flatMap_append, List.length_append, List.flatMap_singleton]
    omega)
  have := hmax.length_le
  rw [List.length_append, List.length_singleton] at this
  omega

/-! ## The loop -/

/-- One round, at a character. -/
theorem changeLoop_char (hload : m.load src i = some c) (hc : c ≠ 0) :
    changeLoop dst src dstLen (num + 1) m i j =
      (addInt j (entity c).length).bind fun next =>
        if next ≥ dstLen then m.store dst j 0
        else (m.storeAll dst j (entity c)).bind fun m =>
          changeLoop dst src dstLen num m (i + 1) (j + (entity c).length) := by
  rw [changeLoop, hload, Option.bind_eq_bind, Option.bind_some, if_neg hc]
  rcases entity_cases c with ⟨h, rfl⟩ | ⟨h, rfl⟩ | ⟨h, h124, h38⟩
  · rw [h, if_pos rfl]
    rfl
  · rw [h, if_neg (by decide), if_pos rfl]
    rfl
  · rw [h, if_neg h124, if_neg h38, Mem.storeAll_singleton]
    rfl

/-- **The characters that fit** are written, one after the other; `p` is what is
    written before. -/
theorem changeLoop_run (hne : src ≠ dst) (hat : m.At src i u) (h0 : 0 ∉ u)
    (hroom : ((p ++ u.flatMap entity).length : ℤ) < dstLen) (hint : dstLen < 2 ^ 31)
    (hsz : dstLen ≤ (m dst).length) :
    changeLoop dst src dstLen (num + u.length) (m.put dst p) i p.length =
      changeLoop dst src dstLen num (m.put dst (p ++ u.flatMap entity)) (i + u.length)
        (p ++ u.flatMap entity).length := by
  induction u generalizing i p with
  | nil => rw [List.flatMap_nil, List.append_nil]; rfl
  | cons c u ih =>
    rw [List.mem_cons, not_or] at h0
    rw [List.flatMap_cons, ← List.append_assoc] at hroom ⊢
    have hpre := (List.prefix_append (p ++ entity c) (u.flatMap entity)).length_le
    rw [List.length_append] at hpre
    have hload : (m.put dst p).load src i = some c := by rw [Mem.load_put_ne hne, hat.load]
    rw [List.length_cons, ← Nat.add_assoc, changeLoop_char hload (Ne.symm h0.1),
      addInt_eq (by omega), Option.bind_some, if_neg (by omega), Mem.storeAll_put rfl (by omega),
      Option.bind_some, ← List.length_append, ih hat.tail h0.2 hroom, Nat.add_assoc i,
      Nat.add_comm 1]

/-- The loop ends: nothing is left to do, or there is no room. -/
theorem changeLoop_stop (hne : src ≠ dst) (hat : m.At src i (s ++ [0])) (h0 : 0 ∉ s)
    (hsz : p.length < (m dst).length)
    (h : num = 0 ∨ ∀ c r, s = c :: r → dstLen ≤ p.length + (entity c).length ∧
      (p.length : ℤ) + (entity c).length < 2 ^ 31) :
    changeLoop dst src dstLen num (m.put dst p) i p.length = some (m.put dst (p ++ [0])) := by
  cases num with
  | zero => rw [changeLoop, Mem.store_put rfl hsz]
  | succ num =>
    have h := h.resolve_left (Nat.succ_ne_zero num)
    cases s with
    | nil =>
      rw [changeLoop, Mem.load_put_ne hne, hat.load, Option.bind_eq_bind, Option.bind_some,
        if_pos rfl, Mem.store_put rfl hsz]
    | cons c s =>
      obtain ⟨hfull, hint⟩ := h c s rfl
      rw [List.mem_cons, not_or] at h0
      have hload : (m.put dst p).load src i = some c := by rw [Mem.load_put_ne hne, hat.load]
      rw [changeLoop_char hload (Ne.symm h0.1), addInt_eq hint, Option.bind_some, if_pos hfull,
        Mem.store_put rfl hsz]

/-- The loop up to the character behind `u`. -/
theorem changeStingBy_run (hne : src ≠ dst) (hv : m.IsStr src s)
    (hnum : toInt s.length + 1 < 2 ^ 31) (hu : u <+: s) (hle : u.length ≤ (toInt s.length).toNat)
    (hroom : ((u.flatMap entity).length : ℤ) < dstLen) (hint : dstLen < 2 ^ 31)
    (hsz : dstLen ≤ (m dst).length) :
    changeStingBy m dst src dstLen =
      changeLoop dst src dstLen ((toInt s.length).toNat - u.length)
        (m.put dst (u.flatMap entity)) u.length (u.flatMap entity).length := by
  have hrun := @changeLoop_run m dst src ((toInt s.length).toNat - u.length) 0 dstLen [] u hne
    (hu.trans hv.at) (fun h => hv.1 (hu.subset h)) hroom hint hsz
  rw [Nat.sub_add_cancel hle, Mem.put_nil, List.nil_append, Nat.zero_add] at hrun
  rw [changeStingBy, hv.strlen, Option.bind_eq_bind, Option.bind_some, addInt_eq hnum,
    Option.bind_eq_bind, Option.bind_some, Int.add_sub_cancel]
  exact hrun

/-- **A source whose length is cut off**: `num` is used up before the room is. -/
theorem changeStingBy_take (hne : src ≠ dst) (hv : m.IsStr src s)
    (hnum : toInt s.length + 1 < 2 ^ 31) (hu : u <+: s) (hlen : u.length = (toInt s.length).toNat)
    (hroom : ((u.flatMap entity).length : ℤ) < dstLen) (hint : dstLen < 2 ^ 31)
    (hsz : dstLen ≤ (m dst).length) :
    changeStingBy m dst src dstLen = some (m.put dst (u.flatMap entity ++ [0])) := by
  rw [changeStingBy_run hne hv hnum hu hlen.le hroom hint hsz, hlen, Nat.sub_self, changeLoop,
    Mem.store_put rfl (by omega)]

/-- The sum `dst_num` overflows. -/
theorem changeStingBy_over {r : List UInt8} (hne : src ≠ dst) (hv : m.IsStr src s)
    (hnum : toInt s.length + 1 < 2 ^ 31) (hs : s = u ++ c :: r)
    (hlt : u.length < (toInt s.length).toNat) (hroom : ((u.flatMap entity).length : ℤ) < dstLen)
    (hint : dstLen < 2 ^ 31) (hsz : dstLen ≤ (m dst).length)
    (hover : 2 ^ 31 ≤ ((u.flatMap entity).length : ℤ) + (entity c).length) :
    changeStingBy m dst src dstLen = none := by
  obtain ⟨num, hnum'⟩ := Nat.exists_eq_add_of_lt hlt
  have hsub : (toInt s.length).toNat - u.length = num + 1 := by omega
  have hat : m.At src u.length (c :: r) := by
    have hat := hv.at
    rw [hs] at hat
    simpa using hat.drop
  have hload : (m.put dst (u.flatMap entity)).load src u.length = some c := by
    rw [Mem.load_put_ne hne, hat.load]
  have hc : c ≠ 0 := fun h => hv.1 (by rw [hs, h]; simp)
  rw [changeStingBy_run hne hv hnum ⟨c :: r, hs.symm⟩ hlt.le hroom hint hsz, hsub,
    changeLoop_char hload hc, addInt_overflow hover]
  rfl

/-- Different texts are left as different strings. -/
theorem eq_of_put {v : List UInt8} (hu : 0 ∉ u) (hv : 0 ∉ v)
    (h : m.put dst (u.flatMap entity ++ [0]) = m.put dst (v.flatMap entity ++ [0])) : u = v := by
  have hcstr := (@Mem.isStr_put m dst _ (zero_notMem_entity hu)).cstr
  rw [h, (Mem.isStr_put (zero_notMem_entity hv)).cstr] at hcstr
  rw [← unentity_flatMap u, ← hcstr, unentity_flatMap]

/-- **When `ChangeStingBy` writes the longest start that fits.** -/
theorem changeStingBy_iff (hne : src ≠ dst) (hv : m.IsStr src s) (hint : dstLen < 2 ^ 31)
    (hsz : dstLen ≤ (m dst).length) (hu : LongestEncoded s dstLen u) :
    (changeStingBy m dst src dstLen = some (m.put dst (u.flatMap entity ++ [0])) ∧
      124 ∉ u.flatMap entity ∧ unentity (u.flatMap entity) = u) ↔
    toInt s.length + 1 < 2 ^ 31 ∧ u.length ≤ (toInt s.length).toNat ∧
      ∀ c r, s = u ++ c :: r → u.length < (toInt s.length).toNat →
        ((u.flatMap entity).length : ℤ) + (entity c).length < 2 ^ 31 := by
  have hfull {c : UInt8} {r : List UInt8} (hs : s = u ++ c :: r) := hu.full hs
  obtain ⟨⟨hstart, hroom⟩, -⟩ := hu
  have h0u : 0 ∉ u := fun h => hv.1 (hstart.subset h)
  constructor
  · rintro ⟨hres, -⟩
    have hnum : toInt s.length + 1 < 2 ^ 31 := by
      by_contra hover
      rw [changeStingBy, hv.strlen, Option.bind_eq_bind, Option.bind_some,
        addInt_overflow (not_lt.1 hover)] at hres
      cases hres
    refine ⟨hnum, ?_, ?_⟩
    · by_contra hlt
      obtain ⟨v, hvu, hlen⟩ : ∃ v, v <+: u ∧ v.length = (toInt s.length).toNat :=
        ⟨u.take (toInt s.length).toNat, List.take_prefix _ _, by rw [List.length_take]; omega⟩
      have hle := (hvu.flatMap entity).length_le
      rw [changeStingBy_take hne hv hnum (hvu.trans hstart) hlen (by omega) hint hsz] at hres
      have heq := eq_of_put (fun h => h0u (hvu.subset h)) h0u (Option.some_inj.1 hres)
      rw [heq] at hlen
      omega
    · intro c r hs hlt
      by_contra hover
      rw [changeStingBy_over hne hv hnum hs hlt hroom hint hsz (not_lt.1 hover)] at hres
      cases hres
  · rintro ⟨hnum, hle, hover⟩
    refine ⟨?_, bar_notMem u, unentity_flatMap u⟩
    obtain ⟨r, hr⟩ := hstart
    have hat : m.At src u.length (r ++ [0]) := by
      have hat := hv.at_end
      rw [← hr, List.append_assoc] at hat
      simpa using hat.drop
    rw [changeStingBy_run hne hv hnum ⟨r, hr⟩ hle hroom hint hsz]
    refine changeLoop_stop hne hat (fun h => hv.1 (hr ▸ List.mem_append_right u h)) (by omega) ?_
    by_cases hend : u.length = (toInt s.length).toNat
    · exact .inl (by omega)
    · refine .inr fun c r' hr' => ?_
      have hs : s = u ++ c :: r' := by rw [← hr, hr']
      exact ⟨hfull hs, hover c r' hs (by omega)⟩

/-- The text `a|`. -/
theorem changeStingBy_iff_bar :
    changeStingBy (fun b => [[97, 124, 0], [7, 7, 7, 7, 7]].getD b []) 1 0 5 =
      some (Mem.put (fun b => [[97, 124, 0], [7, 7, 7, 7, 7]].getD b []) 1
        ([97, 124].flatMap entity ++ [0])) ∧
    124 ∉ [97, 124].flatMap entity ∧ unentity ([97, 124].flatMap entity) = [97, 124] := by
  refine (@changeStingBy_iff (fun b => [[97, 124, 0], [7, 7, 7, 7, 7]].getD b []) 1 0 5 [97, 124]
    [97, 124] (by decide) ⟨by decide, [], rfl⟩ (by norm_num) (by decide)
    ⟨⟨List.prefix_rfl, by decide⟩, fun u' h _ => h⟩).2 ⟨?_, ?_, ?_⟩
  · rw [toInt_eq (by norm_num) (by norm_num)]
    norm_num
  · rw [toInt_eq (by norm_num) (by norm_num)]
    rfl
  · intro c r h
    cases (List.self_eq_append_right.1 h)

/-- A source whose length is negative as an `int`: nothing is written. -/
theorem changeStingBy_negative {n : ℕ} (hn : n = 2 ^ 31) :
    ¬ ∃ u, LongestEncoded (List.replicate n 97) 2 u ∧
      changeStingBy (fun b => [List.replicate n 97 ++ [0], [7, 7]].getD b []) 1 0 2 =
        some (Mem.put (fun b => [List.replicate n 97 ++ [0], [7, 7]].getD b []) 1
          (u.flatMap entity ++ [0])) := by
  rintro ⟨u, hu, hres⟩
  have h0 : 0 ∉ List.replicate n (97 : UInt8) := fun h => by cases List.eq_of_mem_replicate h
  have hint : toInt ((List.replicate n (97 : UInt8)).length : ℕ) = -2 ^ 31 := by
    rw [List.length_replicate, hn]
    decide +kernel
  have htake := @changeStingBy_take (fun b => [List.replicate n 97 ++ [0], [7, 7]].getD b []) 1 0 2
    (List.replicate n 97) [] (by decide) ⟨h0, [], rfl⟩ (by rw [hint]; norm_num) List.nil_prefix
    (by rw [hint]; decide +kernel) (by decide) (by norm_num) (by simp)
  rw [htake] at hres
  obtain rfl := eq_of_put List.not_mem_nil (fun h => h0 (hu.1.1.subset h)) (Option.some_inj.1 hres)
  obtain ⟨k, hk⟩ := Nat.exists_eq_succ_of_ne_zero (by omega : n ≠ 0)
  have hone : [97] <+: List.replicate n (97 : UInt8) := ⟨List.replicate k 97, by rw [hk]; rfl⟩
  cases List.prefix_nil.1 (hu.2 [97] hone (by decide))

/-- A source of 2147483648 letters `a`: nothing is written. -/
theorem changeStingBy_long :
    ¬ ∃ u, LongestEncoded (List.replicate (2 ^ 31) 97) 2 u ∧
      changeStingBy (fun b => [List.replicate (2 ^ 31) 97 ++ [0], [7, 7]].getD b []) 1 0 2 =
        some (Mem.put (fun b => [List.replicate (2 ^ 31) 97 ++ [0], [7, 7]].getD b []) 1
          (u.flatMap entity ++ [0])) := changeStingBy_negative rfl

end CppExperiment.STD
