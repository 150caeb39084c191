/-
  `STD::GetPara` (CommonTools/STD.cc): a parameter of a string
  `name1=text1|name2=text2|...`.

  `getPara_eq` is what it leaves in the destination, for any string: the text
  found by the search, cut to the size of the destination and read with its
  escapes.  `para_round_trip`: on fields written with `to_zhuangyi_string`, the
  value of a listed name, and the empty string for any other name.  A value that
  does not fit is cut before it is read: `para_cut_iff`.
-/
import CppExperiment.Lib.Fields
import CppExperiment.STD.Zhuangyi

namespace CppExperiment.STD

/-- `strncmp(a, b, n) == 0`, from the index `i` on. -/
def strncmpEq (m : Mem) (a b : ℕ) : (n i : ℕ) → Option Bool
  | 0, _ => some true
  | n + 1, i => do
    let x ← m.load a i
    let y ← m.load b i
    if x ≠ y then some false
    else if x = 0 then some true
    else strncmpEq m a b n (i + 1)

/-- `strstr(b, key)`: the index of the first place of `key`. -/
def strstr (m : Mem) (b : ℕ) (key : List UInt8) : Option (Option ℕ) :=
  if 0 ∈ m b then some (find key (cstr (m b))) else none

/-- `strncmp(src, para, len) == 0 && src[len] == second`: the first field is the
    one that is searched. -/
def isFirstPara (m : Mem) (src para len : ℕ) (second : UInt8) : Option Bool := do
  if ← strncmpEq m src para len 0 then
    let c ← m.load src len
    some (c == second)
  else some false

/-- The first part of `GetPara`: the index in `src` where the text starts.  The
    key of the search is formatted into `char key[100]`. -/
def findPara (m : Mem) (src para : ℕ) (first second : UInt8) : Option (Option ℕ) := do
  let len ← m.strlen para
  if ← isFirstPara m src para len second then some (some (len + 1))
  else
    let key := cstr ((first :: cstr (m para) ++ [second]).take 99)
    let p ← strstr m src key
    some (p.map (· + (len + 2)))

/-- The copy loop of `GetPara`, with `k` characters of the destination left:
    the memory and the end of the copy. -/
def copyPara (first : UInt8) (src dst : ℕ) : (k : ℕ) → Mem → (p d : ℕ) → Option (Mem × ℕ)
  | 0, m, _, d => some (m, d)
  | k + 1, m, p, d => do
    let c ← m.load src p
    if c = 0 ∨ c = first then some (m, d)
    else
      let m ← m.store dst d c
      copyPara first src dst k m (p + 1) (d + 1)

/-- `GetPara(src, dst, size, para, first, second)`; it returns `dst`. -/
def getPara (m : Mem) (src dst : ℕ) (size : ℤ) (para : ℕ) (first second : UInt8) :
    Option Mem := do
  let m ← m.store dst 0 0
  match ← findPara m src para first second with
  | some p =>
    let (m, d) ← copyPara first src dst (size - 1).toNat m p 0
    let m ← m.store dst d 0
    getZhuanyiString m dst dst size
  | none => getZhuanyiString m dst dst size

/-! ## The search -/

section
variable {m : Mem} {a b src dst para i j k d : ℕ} {size : ℤ} {first second : UInt8}
  {s n w q : List UInt8}

theorem strncmpEq_eq (ha : m.At a i (s ++ [0])) (hb : m.At b i (n ++ [0])) (hn : 0 ∉ n) :
    strncmpEq m a b n.length i = some (decide (n <+: s)) := by
  induction n generalizing s i with
  | nil => simp [strncmpEq]
  | cons y n ih =>
    rw [List.mem_cons, not_or] at hn
    cases s with
    | nil =>
      rw [List.length_cons, strncmpEq, ha.load, Option.bind_eq_bind, Option.bind_some, hb.load,
        Option.bind_some, if_pos hn.1]
      simp
    | cons x s =>
      rw [List.length_cons, strncmpEq, ha.load, Option.bind_eq_bind, Option.bind_some, hb.load,
        Option.bind_some]
      by_cases hxy : x = y
      · subst hxy
        rw [if_neg (by simp), if_neg (Ne.symm hn.1), ih ha.tail hb.tail hn.2]
        simp
      · rw [if_pos hxy]
        have : ¬ y :: n <+: x :: s := fun h => hxy (List.cons_prefix_cons.1 h).1.symm
        rw [decide_eq_false this]

theorem isFirstPara_eq (hs : m.IsStr src s) (hp : m.IsStr para n) (hsec : second ≠ 0) :
    isFirstPara m src para n.length second = some (decide (n ++ [second] <+: s)) := by
  rw [isFirstPara, strncmpEq_eq hs.at_end hp.at_end hp.1, Option.bind_eq_bind, Option.bind_some]
  by_cases hn : n <+: s
  · obtain ⟨r, rfl⟩ := hn
    have hr : m.At src n.length (r ++ [0]) := by
      have h := hs.at_end
      rw [List.append_assoc] at h
      simpa using h.drop
    rw [if_pos (by simp)]
    simp only [List.prefix_append_right_inj]
    cases r with
    | nil =>
      rw [hr.load, Option.bind_eq_bind, Option.bind_some, beq_false_of_ne (Ne.symm hsec)]
      simp
    | cons c r =>
      rw [hr.load, Option.bind_eq_bind, Option.bind_some]
      simp only [List.cons_prefix_cons, List.nil_prefix, and_true]
      rw [beq_eq_decide, decide_eq_decide.2 eq_comm]
  · rw [if_neg (by simpa using hn)]
    have : ¬ n ++ [second] <+: s := fun h => hn ((List.prefix_append n [second]).trans h)
    rw [decide_eq_false this]

/-- **The search of `GetPara`** is the search of a field by its name. -/
theorem findPara_eq (hs : m.IsStr src s) (hp : m.IsStr para n) (hlen : n.length ≤ 97)
    (hf : first ≠ 0) (hsec : second ≠ 0) :
    findPara m src para first second = some (textAt first second n s) := by
  have h0 : 0 ∈ m src := by obtain ⟨-, r, hr⟩ := hs; rw [hr]; simp
  have hkey : cstr ((first :: cstr (m para) ++ [second]).take 99) = first :: n ++ [second] := by
    have hk : 0 ∉ first :: n ++ [second] := by
      have := hp.1
      simp [hf.symm, hsec.symm, this]
    rw [hp.cstr, List.take_of_length_le (by simp; omega)]
    exact cstr_eq_self hk
  rw [findPara, hp.strlen, Option.bind_eq_bind, Option.bind_some, isFirstPara_eq hs hp hsec,
    Option.bind_eq_bind, Option.bind_some, textAt]
  by_cases hpre : n ++ [second] <+: s
  · rw [if_pos (by simpa using hpre), if_pos hpre]
  · rw [if_neg (by simpa using hpre), if_neg hpre]
    change (strstr m src (cstr ((first :: cstr (m para) ++ [second]).take 99)) >>= _) = _
    rw [hkey, strstr, if_pos h0, hs.cstr]
    rfl

/-! ## The copy -/

/-- The text is copied up to the separator or the end of the destination. -/
theorem copyPara_put (hne : src ≠ dst) (hs : m.At src i (w ++ [0])) (h0 : 0 ∉ w)
    (hd : d = q.length) (hk : d + k ≤ (m dst).length) :
    copyPara first src dst k (m.put dst q) i d =
      some (m.put dst (q ++ (w.takeWhile (· ≠ first)).take k),
        d + ((w.takeWhile (· ≠ first)).take k).length) := by
  induction k generalizing w i d q with
  | zero => simp [copyPara]
  | succ k ih =>
    cases w with
    | nil =>
      rw [copyPara, Mem.load_put_ne hne, hs.load, Option.bind_eq_bind, Option.bind_some,
        if_pos (.inl rfl)]
      simp
    | cons c w =>
      rw [List.mem_cons, not_or] at h0
      rw [copyPara, Mem.load_put_ne hne, hs.load, Option.bind_eq_bind, Option.bind_some]
      by_cases hc : c = first
      · rw [if_pos (.inr hc), List.takeWhile_cons_of_neg (by simpa using hc)]
        simp
      · rw [if_neg (by simp [Ne.symm h0.1, hc]), List.takeWhile_cons_of_pos (by simpa using hc),
          Mem.store_put hd (by omega), Option.bind_eq_bind, Option.bind_some,
          ih hs.tail h0.2 (by simp [hd]) (by omega), List.take_succ_cons]
        simp only [List.length_cons, List.append_assoc, List.singleton_append]
        rw [Nat.add_right_comm, Nat.add_assoc]

/-- The escapes of a text in the destination are read in place. -/
theorem getZhuanyiString_self (h0 : 0 ∉ w) (hw : (w.length : ℤ) < size)
    (hsz : size ≤ (m dst).length) :
    ∃ m', getZhuanyiString (m.put dst (w ++ [0])) dst dst size = some m' ∧
      m'.IsStr dst (zhuangyi.unescape w) ∧ ∀ b ≠ dst, m' b = m b := by
  have hlen : ((m.put dst (w ++ [0])) dst).length = (m dst).length :=
    Mem.length_put (by rw [List.length_append, List.length_singleton]; omega)
  have hu := EscapeCode.length_unescape_le (E := zhuangyi) w
  have hsz' : size ≤ ((m.put dst (w ++ [0])) dst).length := by rw [hlen]; exact hsz
  have hz := getZhuanyiString_eq (Mem.isStr_put h0) (by omega) hsz'
  rw [List.take_of_length_le (by omega)] at hz
  refine ⟨_, hz, Mem.isStr_put (zero_notMem_unescape h0), ?_⟩
  intro b hb
  rw [Mem.put_ne hb, Mem.put_ne hb]

/-- **What `GetPara` leaves in the destination**, for any string: the text of
    the field, if there is one, cut to the size of the destination and then
    read with its escapes. -/
theorem getPara_eq (hsd : src ≠ dst) (hpd : para ≠ dst) (hs : m.IsStr src s)
    (hp : m.IsStr para n) (hlen : n.length ≤ 97) (hf : first ≠ 0) (hsec : second ≠ 0)
    (h1 : 1 ≤ size) (hsz : size ≤ (m dst).length) :
    ∃ m', getPara m src dst size para first second = some m' ∧
      m'.IsStr dst (zhuangyi.unescape
        (((lookup first second n s).getD []).take (size - 1).toNat)) ∧
      ∀ b ≠ dst, m' b = m b := by
  have hsize : ((m.put dst [0]) dst).length = (m dst).length :=
    Mem.length_put (by rw [List.length_singleton]; omega)
  have hs' := hs.put_ne (t := [0]) hsd
  have hp' := hp.put_ne (t := [0]) hpd
  rw [getPara, Mem.store_zero (by omega), Option.bind_eq_bind, Option.bind_some,
    findPara_eq hs' hp' hlen hf hsec, Option.bind_eq_bind, Option.bind_some, lookup]
  cases ht : textAt first second n s with
  | none =>
    rw [Option.map_none, Option.getD_none, List.take_nil]
    exact getZhuanyiString_self (w := []) (by simp) (by simp; omega) hsz
  | some p =>
    have hat : (m.put dst [0]).At src p (s.drop p ++ [0]) := by
      have h := hs'.at_end
      rw [← List.take_append_drop p s, List.append_assoc] at h
      have hd := h.drop
      rwa [List.length_take, Nat.min_eq_left (textAt_le ht), Nat.zero_add] at hd
    have h0 : 0 ∉ s.drop p := fun h => hs.1 (List.mem_of_mem_drop h)
    have hk : 0 + (size - 1).toNat ≤ ((m.put dst [0]) dst).length := by rw [hsize]; omega
    have hc := @copyPara_put (m.put dst [0]) src dst p _ 0 first (s.drop p) [] hsd hat h0 rfl hk
    rw [Mem.put_nil, Nat.zero_add, List.nil_append] at hc
    rw [Option.map_some, Option.getD_some]
    have hw0 : 0 ∉ ((s.drop p).takeWhile (· ≠ first)).take (size - 1).toNat := fun h =>
      h0 (List.takeWhile_prefix _ |>.subset (List.mem_of_mem_take h))
    have hw : (((s.drop p).takeWhile (· ≠ first)).take (size - 1).toNat).length ≤
        (size - 1).toNat := List.length_take_le _ _
    generalize ((s.drop p).takeWhile (· ≠ first)).take (size - 1).toNat = w at hc hw0 hw ⊢
    obtain ⟨m', hz, hstr, hframe⟩ := getZhuanyiString_self hw0 (by omega) hsz
    refine ⟨m', ?_, hstr, hframe⟩
    change (copyPara first src dst (size - 1).toNat (m.put dst [0]) p 0 >>= _) = _
    rw [hc]
    change (Mem.store _ dst w.length 0).bind _ = _
    rw [Mem.store_put rfl (by rw [hsize]; omega), Mem.put_put (by simp), Option.bind_some]
    exact hz

/-! ## Parameters written with escapes -/

/-- The parameters as they are written: the values with escapes. -/
def escaped (ps : List (List UInt8 × List UInt8)) : List (List UInt8 × List UInt8) :=
  ps.map fun p => (p.1, zhuangyi.escape p.2)

/-- A separator of parameters. -/
structure IsSeparator (f : UInt8) : Prop where
  nul : f ≠ 0
  eq : f ≠ 61
  letter : ¬ (f = 92 ∨ f = 97 ∨ f = 98 ∨ f = 110)

/-- A name of a parameter. -/
structure IsName (f : UInt8) (n : List UInt8) : Prop where
  nul : 0 ∉ n
  eq : 61 ∉ n
  sep : f ∉ n
  length : n.length ≤ 97

/-- A value of a parameter: the separators that have an escape may stand in it. -/
structure IsValue (f : UInt8) (v : List UInt8) : Prop where
  nul : 0 ∉ v
  sep : f ≠ 38 → f ≠ 10 → f ∉ v

variable {f : UInt8} {v : List UInt8} {ps : List (List UInt8 × List UInt8)}

/-- An escaped value has no separator. -/
theorem sep_notMem_escape (hf : IsSeparator f) (hv : IsValue f v) : f ∉ zhuangyi.escape v := by
  intro h
  rcases mem_zhuangyi h with h | ⟨h, hplain⟩
  · exact hf.letter h
  · refine hv.sep ?_ ?_ h <;> rintro rfl <;> exact absurd hplain (by decide)

theorem separate_escaped (hf : IsSeparator f) (hps : ∀ p ∈ ps, IsName f p.1 ∧ IsValue f p.2) :
    Separate f 61 (escaped ps) := by
  refine ⟨hf.eq, ?_, ?_, ?_⟩ <;> intro q hq <;> obtain ⟨p, hp, rfl⟩ := List.mem_map.1 hq
  · exact (hps p hp).1.sep
  · exact (hps p hp).1.eq
  · exact sep_notMem_escape hf (hps p hp).2

theorem lookup_escaped (n : List UInt8) :
    (escaped ps).lookup n = (ps.lookup n).map zhuangyi.escape := by
  induction ps with
  | nil => rfl
  | cons p ps ih =>
    change ((p.1, zhuangyi.escape p.2) :: escaped ps).lookup n = _
    rw [List.lookup_cons, List.lookup_cons]
    cases n == p.1
    · exact ih
    · rfl

/-- **Parameters are found again.**  `src` joins the fields `name=text`, where
    the text is what `to_zhuangyi_string` writes for the value: `GetPara` gives
    the value of a listed name, if the destination is larger than the text, and
    the empty string for any other name. -/
theorem para_round_trip (hf : IsSeparator f) (hps : ∀ p ∈ ps, IsName f p.1 ∧ IsValue f p.2)
    (hnd : (ps.map Prod.fst).Nodup) (hsrc : m.IsStr src (join f 61 (escaped ps)))
    (hpara : m.IsStr para n) (hn : IsName f n) (hsd : src ≠ dst) (hpd : para ≠ dst)
    (hsz : size ≤ (m dst).length) :
    (∀ p ∈ ps, ∀ (m : Mem) (value out : ℕ) (size : ℤ), m.IsStr value p.2 → value ≠ out →
      ((zhuangyi.escape p.2).length : ℤ) < size → size ≤ (m out).length →
      toZhuangyiString m value out size = some (m.put out (zhuangyi.escape p.2 ++ [0]))) ∧
    (∀ v, (n, v) ∈ ps → ((zhuangyi.escape v).length : ℤ) < size →
      ∃ m', getPara m src dst size para f 61 = some m' ∧ m'.IsStr dst v ∧ ∀ b ≠ dst, m' b = m b) ∧
    (n ∉ ps.map Prod.fst → 1 ≤ size →
      ∃ m', getPara m src dst size para f 61 = some m' ∧ m'.IsStr dst [] ∧
        ∀ b ≠ dst, m' b = m b) := by
  have hlook : lookup f 61 n (join f 61 (escaped ps)) = (ps.lookup n).map zhuangyi.escape := by
    rw [lookup_join (separate_escaped hf hps) hn.eq, lookup_escaped]
  have hsec : (61 : UInt8) ≠ 0 := by decide
  have hget (h1 : 1 ≤ size) := getPara_eq hsd hpd hsrc hpara hn.length hf.nul hsec h1 hsz
  rw [hlook] at hget
  refine ⟨?_, ?_, ?_⟩
  · intro p _ m value out size hv hne hr hsz
    exact toZhuangyiString_eq hne hv hr hsz
  · intro v hv hr
    have hget := hget (by omega)
    rw [lookup_of_mem hnd hv, Option.map_some, Option.getD_some, List.take_of_length_le (by omega),
      EscapeCode.unescape_escape] at hget
    exact hget
  · intro hno h1
    have hget := hget h1
    rwa [lookup_of_notMem hno, Option.map_none, Option.getD_none, List.take_nil] at hget

/-- The names `a` and `ba`, where the second contains the first, and a value
    with escapes. -/
theorem para_round_trip_two : ∃ m' : Mem,
    getPara (fun b => [[97, 61, 92, 97, 38, 98, 97, 61, 55, 0], [98, 97, 0], [9, 9, 9]].getD b [])
      0 2 3 1 38 61 = some m' ∧ m'.IsStr 2 [55] := by
  have hf : IsSeparator 38 := ⟨by decide, by decide, by decide⟩
  have hps : ∀ p ∈ [([97], [61]), ([98, 97], [55])], IsName 38 p.1 ∧ IsValue 38 p.2 := by
    intro p hp
    rw [List.mem_cons, List.mem_singleton] at hp
    rcases hp with rfl | rfl
    · exact ⟨⟨by decide, by decide, by decide, by decide⟩, ⟨by decide, by decide⟩⟩
    · exact ⟨⟨by decide, by decide, by decide, by decide⟩, ⟨by decide, by decide⟩⟩
  have h := @para_round_trip
    (fun b => [[97, 61, 92, 97, 38, 98, 97, 61, 55, 0], [98, 97, 0], [9, 9, 9]].getD b [])
    0 2 1 3 [98, 97] 38 _ hf hps (by decide) ⟨by decide, [], by decide⟩ ⟨by decide, [], by decide⟩
    ⟨by decide, by decide, by decide, by decide⟩ (by decide) (by decide) (by decide)
  obtain ⟨m', h1, h2, -⟩ := h.2.1 [55] (by decide) (by decide)
  exact ⟨m', h1, h2⟩

/-- **Parameters that are cut.**  The text is cut to the size of the destination
    before its escapes are read: what is left is a start of the value, unless
    the cut tears the pair of a character other than `\`. -/
theorem para_cut_iff (hf : IsSeparator f) (hps : ∀ p ∈ ps, IsName f p.1 ∧ IsValue f p.2)
    (hnd : (ps.map Prod.fst).Nodup) (hsrc : m.IsStr src (join f 61 (escaped ps)))
    (hpara : m.IsStr para n) (hv : (n, v) ∈ ps) (hsd : src ≠ dst) (hpd : para ≠ dst)
    (h1 : 1 ≤ size) (hsz : size ≤ (m dst).length) :
    (∃ m' w, getPara m src dst size para f 61 = some m' ∧ m'.IsStr dst w ∧
      (w.length : ℤ) ≤ size - 1 ∧ w <+: v) ↔
    ∀ c, zhuangyi.CutsPair v (size - 1).toNat c → c = 92 := by
  obtain ⟨hn, -⟩ := hps _ hv
  have hget := getPara_eq hsd hpd hsrc hpara hn.length hf.nul (by decide : (61 : UInt8) ≠ 0) h1 hsz
  rw [lookup_join (separate_escaped hf hps) hn.eq, lookup_escaped, lookup_of_mem hnd hv,
    Option.map_some, Option.getD_some] at hget
  obtain ⟨m', hm', hstr, -⟩ := hget
  refine Iff.trans ⟨?_, fun h => ?_⟩
    (EscapeCode.unescape_take_prefix_iff (E := zhuangyi) v (size - 1).toNat)
  · rintro ⟨m'', w, hm'', hw, -, hpre⟩
    rw [hm', Option.some_inj] at hm''
    rwa [← hstr.cstr, hm'', hw.cstr]
  · have hlen := EscapeCode.length_unescape_le (E := zhuangyi)
      ((zhuangyi.escape v).take (size - 1).toNat)
    have htake := List.length_take_le (size - 1).toNat (zhuangyi.escape v)
    exact ⟨m', _, hm', hstr, by omega, h⟩

/-- The value `\` in a destination with room for one character. -/
theorem para_cut_iff_backslash : ∃ m' w,
    getPara (fun b => [[97, 61, 92, 92, 0], [97, 0], [9, 9]].getD b []) 0 2 2 1 38 61 = some m' ∧
      m'.IsStr 2 w ∧ (w.length : ℤ) ≤ 2 - 1 ∧ w <+: [92] := by
  have hf : IsSeparator 38 := ⟨by decide, by decide, by decide⟩
  have hps : ∀ p ∈ [([97], [92])], IsName 38 p.1 ∧ IsValue 38 p.2 := by
    intro p hp
    obtain rfl := List.mem_singleton.1 hp
    exact ⟨⟨by decide, by decide, by decide, by decide⟩, ⟨by decide, by decide⟩⟩
  refine (para_cut_iff hf hps (by decide) ⟨by decide, [], by decide⟩ ⟨by decide, [], by decide⟩
    List.mem_cons_self (by decide) (by decide) (by decide) (by decide)).2 ?_
  rintro c ⟨-, u, r, h, -⟩
  have hc : c ∈ u ++ c :: r := List.mem_append_right _ List.mem_cons_self
  rw [← h] at hc
  exact List.mem_singleton.1 hc

/-- The value `=` in a destination with room for one character: a lone `\` is
    left, which is no start of it. -/
theorem para_cut_eq : join 38 61 (escaped [([97], [61])]) = [97, 61, 92, 97] ∧
    ∃ m', getPara (fun b => [[97, 61, 92, 97, 0], [97, 0], [9, 9]].getD b []) 0 2 2 1 38 61 =
      some m' ∧ m'.IsStr 2 [92] ∧ ¬ [92] <+: [(61 : UInt8)] := by
  obtain ⟨m', hm', hstr, -⟩ := @getPara_eq
    (fun b => [[97, 61, 92, 97, 0], [97, 0], [9, 9]].getD b []) 0 2 1 2 38 61 [97, 61, 92, 97] [97]
    (by decide) (by decide) ⟨by decide, [], by decide⟩ ⟨by decide, [], by decide⟩ (by decide)
    (by decide) (by decide) (by decide) (by decide)
  exact ⟨by decide, m', hm', hstr, by decide⟩

end

end CppExperiment.STD
