/-
  The decoder `STD::Base64Decode` (CommonTools/STD.cc).

  * `decode_text`: the decoder on any text, into a buffer of any size.
  * `textBytes_encode`, `decode_spec`: from the text of RFC 4648 it gives the
    bytes back.
-/
import CppExperiment.STD.Base64

namespace CppExperiment.STD

variable {m : Mem} {inp out str i j k : ℕ} {outLen : ℤ} {a b c : UInt8} {s p : List UInt8}

/-- **The filter keeps the characters of Base64**; the rest of the block,
    what stood behind them included, is as before. -/
theorem filterLoop_put {fuel : ℕ} (hs : m.At str i (s ++ [0])) (h0 : 0 ∉ s)
    (hj : j = p.length) (hji : j ≤ i) (hf : i + s.length < (m str).length)
    (hfuel : s.length < fuel) :
    filterLoop str fuel (m.put str p) i j =
      some (m.put str (p ++ s.filter isBase64Chr)) := by
  induction s generalizing fuel i j p with
  | nil =>
    obtain ⟨fuel, rfl⟩ := Nat.exists_eq_add_of_lt hfuel
    rw [filterLoop, Mem.load_put_ge (hj ▸ hji), hs.load]
    simp
  | cons c s ih =>
    obtain ⟨fuel, rfl⟩ := Nat.exists_eq_succ_of_ne_zero (Nat.ne_zero_of_lt hfuel)
    simp only [List.length_cons] at hf hfuel
    have hc : c ≠ 0 := fun h => h0 (h ▸ List.mem_cons_self)
    have hs0 : 0 ∉ s := fun h => h0 (List.mem_cons_of_mem c h)
    rw [filterLoop, Mem.load_put_ge (hj ▸ hji), hs.load, Option.bind_eq_bind, Option.bind_some,
      if_neg hc]
    by_cases hk : isBase64Chr c
    · rw [if_pos hk, Mem.store_put hj (by omega), Option.bind_eq_bind, Option.bind_some,
        ih hs.tail hs0 (by simp [hj]) (by omega) (by omega) (by omega), List.filter_cons_of_pos hk]
      simp
    · rw [if_neg hk, ih hs.tail hs0 hj (by omega) (by omega) (by omega),
        List.filter_cons_of_neg hk]

theorem base64Filter_eq (h : m.IsStr str s) :
    base64Filter m str = some (m.put str (s.filter isBase64Chr)) := by
  have hl := h.length_lt
  have hat : m.At str 0 (s ++ [0]) := h.at_end
  have := filterLoop_put (p := []) hat h.1 rfl le_rfl (by omega) hl
  rwa [Mem.put_nil, List.nil_append] at this

theorem isBase64Chr_digit {v : ℕ} (h : v < 64) : isBase64Chr (Base64.digit v) := by
  have : ∀ v : Fin 64, isBase64Chr (Base64.digit v) := by decide +kernel
  exact this ⟨v, h⟩

/-- A Base64 text passes the filter. -/
theorem filter_encode (s : List UInt8) :
    (Base64.encode s).filter isBase64Chr = Base64.encode s := by
  rw [List.filter_eq_self]
  intro x hx
  rcases Base64.mem_encode hx with ⟨v, hv, rfl⟩ | rfl
  · exact isBase64Chr_digit hv
  · decide

/-- `Chr2Base` is the inverse of the digits. -/
theorem chr2Base_digit {v : ℕ} (h : v < 64) : (chr2Base (Base64.digit v)).toNat = v := by
  have : ∀ v : Fin 64, (chr2Base (Base64.digit v)).toNat = v := by decide +kernel
  exact this ⟨v, h⟩

theorem loadGroup_eq {x y z w : UInt8} {r : List UInt8} (h : m.At inp j (x :: y :: z :: w :: r)) :
    loadGroup m inp j = some (chr2Base x, chr2Base y, chr2Base z, chr2Base w) := by
  rw [loadGroup, h.load, h.tail.load, h.tail.tail.load, h.tail.tail.tail.load]
  rfl

/-- The bytes of a group of three. -/
theorem groupBytes_three : groupBytes (chr2Base (Base64.digit (a.toNat / 4)),
    chr2Base (Base64.digit (a.toNat % 4 * 16 + b.toNat / 16)),
    chr2Base (Base64.digit (b.toNat % 16 * 4 + c.toNat / 64)),
    chr2Base (Base64.digit (c.toNat % 64))) = [a, b, c] := by
  have ha := a.toNat_lt
  have hb := b.toNat_lt
  have hc := c.toNat_lt
  have h1 := chr2Base_digit (v := a.toNat / 4) (by omega)
  have h2 := chr2Base_digit (v := a.toNat % 4 * 16 + b.toNat / 16) (by omega)
  have h3 := chr2Base_digit (v := b.toNat % 16 * 4 + c.toNat / 64) (by omega)
  have h4 := chr2Base_digit (v := c.toNat % 64) (by omega)
  rw [groupBytes, List.cons.injEq, List.cons.injEq, List.cons.injEq]
  refine ⟨?_, ?_, ?_, rfl⟩
  · rw [← UInt8.toNat_inj, Base64.byte1_toNat (by omega) (by omega), h1, h2]
    omega
  · rw [← UInt8.toNat_inj, Base64.byte2_toNat (by omega) (by omega), h2, h3]
    omega
  · rw [← UInt8.toNat_inj, Base64.byte3_toNat (by omega) (by omega), h3, h4]
    omega

/-- The bytes of a padded group of two. -/
theorem groupBytes_two (w : UInt8) :
    (groupBytes (zeroLast 1 (chr2Base (Base64.digit (a.toNat / 4)),
      chr2Base (Base64.digit (a.toNat % 4 * 16 + b.toNat / 16)),
      chr2Base (Base64.digit (b.toNat % 16 * 4)), w))).take 2 = [a, b] := by
  have h := groupBytes_three (a := a) (b := b) (c := 0)
  exact congrArg (List.take 2) h

/-- The bytes of a padded group of one. -/
theorem groupBytes_one (z w : UInt8) :
    (groupBytes (zeroLast 2 (chr2Base (Base64.digit (a.toNat / 4)),
      chr2Base (Base64.digit (a.toNat % 4 * 16)), z, w))).take 1 = [a] := by
  have h := groupBytes_three (a := a) (b := 0) (c := 0)
  exact congrArg (List.take 1) h

/-- What the decoder needs of its two buffers, `outLen` one less than the size
    of `out`. -/
structure DecodeBufs (m : Mem) (inp out : ℕ) (outLen : ℤ) : Prop where
  ne : inp ≠ out
  lt : outLen < (m out).length
  int : outLen < 2 ^ 31

/-- A group of the loop. -/
theorem decodeGroups_put {z : ℕ} {bufa : Bufa} (hb : DecodeBufs m inp out outLen)
    (hg : loadGroup (m.put out p) inp j = some bufa) (hs : groupBytes bufa = s)
    (hs3 : s.length = 3) (hi : i = p.length) (hr : (i : ℤ) + 3 ≤ outLen) :
    decodeGroups outLen inp out (z + 1) (m.put out p) i j =
      decodeGroups outLen inp out z (m.put out (p ++ s)) (i + 3) (j + 4) := by
  have hlt := hb.lt
  have hint := hb.int
  rw [decodeGroups, hg, Option.bind_eq_bind, Option.bind_some, toInt_eq (by omega) (by omega),
    if_neg (by omega), hs, Mem.storeAll_put hi (by omega)]
  rfl

/-- The last group: the `y` padding characters leave `3 - y` bytes. -/
theorem decodeLast_put {bufa : Bufa} {l y : ℕ} (hb : DecodeBufs m inp out outLen)
    (hg : loadGroup (m.put out p) inp j = some bufa)
    (hp : padding (m.put out p) inp l = some y)
    (hs : (groupBytes (zeroLast y bufa)).take (3 - y) = s) (hy : 3 - y = s.length)
    (hi : i = p.length) (hr : (i : ℤ) + s.length ≤ outLen) (hy3 : y ≤ 3) :
    decodeLast outLen inp out l (m.put out p) i j =
      some (m.put out (p ++ s ++ [0]), i + s.length) := by
  have hlt := hb.lt
  have hint := hb.int
  have hsz : (i : ℤ) + 3 - y = i + s.length := by omega
  rw [decodeLast, hg, Option.bind_eq_bind, Option.bind_some, hp, Option.bind_eq_bind,
    Option.bind_some, hsz, toInt_eq (by omega) (by omega), if_pos hr, hs, hy,
    Mem.storeAll_put hi (by omega), Option.bind_eq_bind, Option.bind_some,
    Mem.store_put (by simp [hi]) (by omega)]
  rfl

/-! ### Any text

The decoder takes the groups of four characters one by one and cuts off the
bytes that do not fit, or that padding stands for. -/

/-- The bytes of all groups of four characters. -/
def groupsBytes : List UInt8 → List UInt8
  | x :: y :: z :: w :: u =>
    groupBytes (chr2Base x, chr2Base y, chr2Base z, chr2Base w) ++ groupsBytes u
  | _ => []

/-- The padding characters that the decoder sees at the end of a text. -/
def paddingOf (u : List UInt8) : ℕ :=
  if u[u.length - 2]? = some Base64.pad then 2
  else if u[u.length - 1]? = some Base64.pad then 1
  else 0

/-- The bytes that a text of `x + 1` groups with `y` padding characters leaves
    where `n` bytes fit. -/
def fitting (n x y : ℕ) : ℕ :=
  let k := min x (n / 3)
  if 3 * k + 3 - y ≤ n then 3 * k + 3 - y else 3 * k

/-- What the decoder makes of a text where `n` bytes fit. -/
def decoded (n : ℕ) (u : List UInt8) : List UInt8 :=
  (groupsBytes u).take (fitting n ((u.length - 4) / 4) (paddingOf u))

theorem length_groupBytes (bufa : Bufa) : (groupBytes bufa).length = 3 := rfl

theorem length_groupsBytes (u : List UInt8) : (groupsBytes u).length = 3 * (u.length / 4) := by
  induction u using groupsBytes.induct with
  | case1 x y z w u ih =>
    rw [groupsBytes, List.length_append, length_groupBytes, ih]
    simp only [List.length_cons]
    omega
  | case2 u h =>
    rw [groupsBytes.eq_2 u h]
    match u, h with
    | [], _ => rfl
    | [_], _ => simp
    | [_, _], _ => simp
    | [_, _, _], _ => simp
    | x :: y :: z :: w :: u, h => exact absurd rfl (h x y z w u)

theorem paddingOf_le (u : List UInt8) : paddingOf u ≤ 2 := by
  unfold paddingOf; split_ifs <;> omega

theorem fitting_le {n x y : ℕ} (hy : y ≤ 2) : fitting n x y ≤ 3 * x + 3 - y := by
  simp only [fitting]
  split_ifs <;> omega

/-- With room for all, nothing is cut off but the padding. -/
theorem fitting_eq {n x y : ℕ} (hy : y ≤ 2) (h : 3 * x + 3 - y ≤ n) :
    fitting n x y = 3 * x + 3 - y := by
  have hk : min x (n / 3) = x := by omega
  simp only [fitting, hk, if_pos h]

/-- Four characters are at hand. -/
theorem exists_group {u : List UInt8} (h : 4 ≤ u.length) :
    ∃ x y z w r, u = x :: y :: z :: w :: r := by
  match u, h with
  | x :: y :: z :: w :: r, _ => exact ⟨x, y, z, w, r, rfl⟩

/-- One group more. -/
theorem take_groupsBytes_cons (x y z w : UInt8) (u : List UInt8) (k : ℕ) :
    (groupsBytes (x :: y :: z :: w :: u)).take (3 * (k + 1)) =
      groupBytes (chr2Base x, chr2Base y, chr2Base z, chr2Base w) ++
        (groupsBytes u).take (3 * k) := by
  rw [groupsBytes, Nat.mul_succ, Nat.add_comm]
  exact @List.take_length_add_append _ (groupBytes _) _ (3 * k)

/-- The groups from the one with the index `k` on. -/
theorem drop_groupsBytes (u : List UInt8) (k : ℕ) (h : 4 * k ≤ u.length) :
    (groupsBytes u).drop (3 * k) = groupsBytes (u.drop (4 * k)) := by
  induction k generalizing u with
  | zero => rfl
  | succ k ih =>
    obtain ⟨x, y, z, w, r, rfl⟩ := exists_group (u := u) (by omega)
    simp only [List.length_cons] at h
    rw [groupsBytes, Nat.mul_succ, Nat.add_comm]
    exact (@List.drop_length_add_append _ (groupBytes _) _ (3 * k)).trans (ih r (by omega))

/-- The padding at the end of a text. -/
theorem padding_text {u : List UInt8} (h : m.At inp 0 u) (hl : 2 ≤ u.length) :
    padding m inp u.length = some (paddingOf u) := by
  obtain ⟨r, hr⟩ := h
  rw [List.drop_zero] at hr
  have hload : ∀ i < u.length, m.load inp i = some (u[i]?.getD 0) := by
    intro i hi
    rw [Mem.load, ← hr, List.getElem?_append_left hi, List.getElem?_eq_getElem hi]
    rfl
  have hget : ∀ i < u.length, (u[i]?.getD 0 = Base64.pad ↔ u[i]? = some Base64.pad) := by
    intro i hi
    rw [List.getElem?_eq_getElem hi]
    simp
  rw [padding, hload _ (by omega), hload _ (by omega)]
  change (if _ then _ else if _ then _ else _) = _
  simp only [hget _ (show u.length - 2 < u.length by omega),
    hget _ (show u.length - 1 < u.length by omega), paddingOf]
  split_ifs <;> rfl

/-- The characters that padding stands for do not matter for the bytes kept. -/
theorem groupBytes_zeroLast {y : ℕ} (hy : y ≤ 2) (bufa : Bufa) :
    (groupBytes (zeroLast y bufa)).take (3 - y) = (groupBytes bufa).take (3 - y) := by
  interval_cases y <;> rfl

/-- **The last group of any text**, with `y` padding characters. -/
theorem decodeLast_spec {n l y : ℕ} {u : List UInt8} (hb : DecodeBufs m inp out n)
    (hs : m.At inp j u) (hu : 4 ≤ u.length) (hp : padding (m.put out p) inp l = some y)
    (hy : y ≤ 2) (hi : i = p.length) (hin : i ≤ n) (hint : (i : ℤ) + 3 - y < 2 ^ 31) :
    decodeLast n inp out l (m.put out p) i j =
      some (m.put out (p ++ (groupsBytes u).take (if i + 3 - y ≤ n then 3 - y else 0) ++ [0]),
        i + if i + 3 - y ≤ n then 3 - y else 0) := by
  have hlt := hb.lt
  obtain ⟨a, b, c, d, r, rfl⟩ := exists_group hu
  have hs' := hs.put_ne (t := p) hb.ne
  have htake : (groupsBytes (a :: b :: c :: d :: r)).take (3 - y) =
      (groupBytes (zeroLast y (chr2Base a, chr2Base b, chr2Base c, chr2Base d))).take (3 - y) := by
    rw [groupBytes_zeroLast hy, groupsBytes]
    exact List.take_append_of_le_length (by rw [length_groupBytes]; omega)
  have hlen : 3 - y = ((groupsBytes (a :: b :: c :: d :: r)).take (3 - y)).length := by
    rw [List.length_take, length_groupsBytes]
    simp only [List.length_cons]
    omega
  split_ifs with h
  · have := decodeLast_put hb (loadGroup_eq hs') hp htake.symm hlen hi (by omega) (by omega)
    rw [this, ← hlen]
  · rw [decodeLast, loadGroup_eq hs', Option.bind_eq_bind, Option.bind_some, hp,
      Option.bind_eq_bind, Option.bind_some, toInt_eq (by omega) (by omega), if_neg (by omega),
      Mem.store_put hi (by omega), List.take_zero, List.append_nil]
    rfl

/-- **The loop on any text** `u`, of which four characters are left for the
    last group. -/
theorem decodeGroups_spec {n z : ℕ} {u : List UInt8} (hb : DecodeBufs m inp out n)
    (hs : m.At inp j u) (hz : 4 * z + 4 ≤ u.length) (hi : i = p.length) (hin : i ≤ n)
    (hint : (i : ℤ) + 3 * z < 2 ^ 31) :
    decodeGroups n inp out z (m.put out p) i j =
      some (m.put out (p ++ (groupsBytes u).take (3 * min z ((n - i) / 3))),
        i + 3 * min z ((n - i) / 3), j + 4 * min z ((n - i) / 3)) := by
  induction z generalizing i j p u with
  | zero => simp [decodeGroups]
  | succ z ih =>
    obtain ⟨x, y, z', w, r, rfl⟩ := exists_group (u := u) (by omega)
    have hs' := hs.put_ne (t := p) hb.ne
    simp only [List.length_cons] at hz
    push_cast at hint
    by_cases hr : i + 3 ≤ n
    · have hk : min (z + 1) ((n - i) / 3) = min z ((n - (i + 3)) / 3) + 1 := by omega
      rw [decodeGroups_put hb (loadGroup_eq hs') rfl rfl hi (by omega),
        ih hs.tail.tail.tail.tail (by omega) (by simp [hi, length_groupBytes]) hr
          (by push_cast; omega), hk, take_groupsBytes_cons, List.append_assoc]
      congr 3 <;> omega
    · have hk : min (z + 1) ((n - i) / 3) = 0 := by omega
      rw [hk, decodeGroups, loadGroup_eq hs', Option.bind_eq_bind, Option.bind_some,
        toInt_eq (by omega) (by omega), if_pos (by omega)]
      simp

/-- What `Base64Filter` leaves of a text: the characters that it keeps, and
    what stood behind them, since it writes no terminator. -/
def filtered (t : List UInt8) : List UInt8 :=
  t.filter isBase64Chr ++ t.drop (t.filter isBase64Chr).length

theorem length_filtered (t : List UInt8) : (filtered t).length = t.length := by
  have := List.length_filter_le isBase64Chr t
  rw [filtered, List.length_append, List.length_drop]
  omega

/-- Without other characters nothing changes. -/
theorem filtered_eq_self {t : List UInt8} (h : t.filter isBase64Chr = t) : filtered t = t := by
  rw [filtered, h, List.drop_length, List.append_nil]

theorem isStr_filtered {t : List UInt8} (h : m.IsStr inp t) :
    (m.put inp (t.filter isBase64Chr)).IsStr inp (filtered t) := by
  have hl := List.length_filter_le isBase64Chr t
  obtain ⟨h0, r, hr⟩ := h
  refine ⟨?_, r, ?_⟩
  · intro hm
    rcases List.mem_append.1 hm with hm | hm
    · exact h0 (List.mem_filter.1 hm).1
    · exact h0 (List.mem_of_mem_drop hm)
  · rw [Mem.put_self, hr, List.drop_append_of_le_length hl, filtered, List.append_assoc]

/-- The bytes of the groups of a text of at least four characters. -/
theorem length_decoded {n : ℕ} {u : List UInt8} (h : 4 ≤ u.length) :
    (decoded n u).length = fitting n ((u.length - 4) / 4) (paddingOf u) := by
  have := fitting_le (n := n) (x := (u.length - 4) / 4) (paddingOf_le u)
  rw [decoded, List.length_take, length_groupsBytes]
  omega

theorem decoded_short {n : ℕ} {u : List UInt8} (h : u.length < 4) : decoded n u = [] := by
  have : (groupsBytes u).length = 0 := by rw [length_groupsBytes]; omega
  rw [decoded, List.eq_nil_of_length_eq_zero this, List.take_nil]

/-- The loop and the last group. -/
theorem decode_groups {u : List UInt8} {n : ℕ} (hb : DecodeBufs m inp out n) (hu : m.At inp 0 u)
    (hl : 4 ≤ u.length) (hint : 3 * ((u.length : ℤ) / 4) - paddingOf u < 2 ^ 31) :
    (decodeGroups n inp out ((u.length - 4) / 4) m 0 0 >>= fun x =>
      decodeLast n inp out u.length x.1 x.2.1 x.2.2) =
        some (m.put out (decoded n u ++ [0]), (decoded n u).length) := by
  have hy := paddingOf_le u
  obtain ⟨k, hk⟩ : ∃ k, k = min ((u.length - 4) / 4) (n / 3) := ⟨_, rfl⟩
  have hloop := decodeGroups_spec (p := []) (i := 0) (z := (u.length - 4) / 4) hb hu (by omega) rfl
    (Nat.zero_le n) (by push_cast; omega)
  rw [Mem.put_nil, List.nil_append, Nat.zero_add, Nat.zero_add, Nat.sub_zero, ← hk] at hloop
  have hdrop : m.At inp (4 * k) (u.drop (4 * k)) := by
    rw [← List.take_append_drop (4 * k) u] at hu
    have := hu.drop
    rwa [List.length_take, Nat.min_eq_left (by omega), Nat.zero_add] at this
  have hpad : padding (m.put out ((groupsBytes u).take (3 * k))) inp u.length =
      some (paddingOf u) := padding_text (hu.put_ne hb.ne) (by omega)
  have hlen3 : 3 * k = ((groupsBytes u).take (3 * k)).length := by
    rw [List.length_take, length_groupsBytes]
    omega
  have hfit : fitting n ((u.length - 4) / 4) (paddingOf u) =
      3 * k + if 3 * k + 3 - paddingOf u ≤ n then 3 - paddingOf u else 0 := by
    simp only [fitting, ← hk]
    split_ifs <;> omega
  rw [hloop, Option.bind_eq_bind, Option.bind_some, decodeLast_spec hb hdrop
    (by rw [List.length_drop]; omega) hpad hy hlen3 (by omega) (by push_cast; omega),
    length_decoded hl, decoded, hfit, List.take_add, drop_groupsBytes u k (by omega)]

/-- **The decoder on any text.**  The text is filtered in place, and the bytes
    of its groups are written with a terminator. -/
theorem decode_text {t : List UInt8} {n : ℕ} (hb : DecodeBufs m inp out n) (ht : m.IsStr inp t)
    (hint : 3 * ((t.length : ℤ) / 4) - paddingOf (filtered t) < 2 ^ 31) :
    base64Decode m inp out (n + 1) =
      some ((m.put inp (t.filter isBase64Chr)).put out (decoded n (filtered t) ++ [0]),
        (decoded n (filtered t)).length) := by
  have hlt := hb.lt
  have hu := (isStr_filtered ht).put_ne (t := [0]) hb.ne
  have hlen := length_filtered t
  rw [base64Decode, base64Filter_eq ht, Option.bind_eq_bind, Option.bind_some]
  obtain ⟨m', hm'⟩ : ∃ m', m' = m.put inp (t.filter isBase64Chr) := ⟨_, rfl⟩
  have hout : m' out = m out := by rw [hm', Mem.put_ne hb.ne.symm]
  rw [← hm'] at hu ⊢
  have hpos : 0 < (m' out).length := by rw [hout]; omega
  have hsize : ((m'.put out [0]) out).length = (m out).length := by
    rw [Mem.length_put (by rwa [List.length_singleton]), hout]
  have hb' : DecodeBufs (m'.put out [0]) inp out n := ⟨hb.ne, by rw [hsize]; exact hlt, hb.int⟩
  rw [Mem.store_zero hpos, Option.bind_eq_bind, Option.bind_some, hu.strlen, Option.bind_eq_bind,
    Option.bind_some, Int.add_sub_cancel]
  by_cases hl : (filtered t).length < 4
  · rw [if_pos hl, decoded_short hl, Mem.store_zero (by rw [hsize]; omega), Mem.put_put le_rfl]
    rfl
  · have h := decode_groups hb' hu.at (by omega) (by rw [hlen]; exact hint)
    rw [if_neg hl]
    rw [Mem.put_put (by simp)] at h
    exact h

/-! ### The bytes of a text -/

/-- The bytes that a text stands for, for the decoder. -/
def textBytes (u : List UInt8) : List UInt8 :=
  (groupsBytes u).take (3 * (u.length / 4) - paddingOf u)

theorem length_textBytes (u : List UInt8) :
    (textBytes u).length = 3 * (u.length / 4) - paddingOf u := by
  rw [textBytes, List.length_take, length_groupsBytes]
  omega

theorem textBytes_short {u : List UInt8} (h : u.length < 4) : textBytes u = [] := by
  refine List.eq_nil_of_length_eq_zero ?_
  rw [length_textBytes]
  omega

theorem decoded_prefix_textBytes (n : ℕ) (u : List UInt8) : decoded n u <+: textBytes u := by
  by_cases h : u.length < 4
  · rw [decoded_short h]
    exact List.nil_prefix
  · refine List.take_prefix_take_left ?_
    have := fitting_le (n := n) (x := (u.length - 4) / 4) (paddingOf_le u)
    omega

/-- What is written fits. -/
theorem length_decoded_le (n : ℕ) (u : List UInt8) : (decoded n u).length ≤ n := by
  refine (List.length_take_le _ _).trans ?_
  simp only [fitting]
  split_ifs <;> omega

/-- With room for all bytes, all are decoded. -/
theorem decoded_eq {n : ℕ} {u : List UInt8} (h : (textBytes u).length ≤ n) :
    decoded n u = textBytes u := by
  have hy := paddingOf_le u
  rw [length_textBytes] at h
  by_cases hl : u.length < 4
  · have : 3 * (u.length / 4) - paddingOf u = 0 := by omega
    rw [decoded_short hl, textBytes, this, List.take_zero]
  · rw [decoded, textBytes, fitting_eq hy (by omega)]
    congr 1
    omega

theorem paddingOf_append (v : List UInt8) {u : List UInt8} (h : 2 ≤ u.length) :
    paddingOf (v ++ u) = paddingOf u := by
  have h1 : (v ++ u).length - 1 = v.length + (u.length - 1) := by
    rw [List.length_append]; omega
  have h2 : (v ++ u).length - 2 = v.length + (u.length - 2) := by
    rw [List.length_append]; omega
  simp only [paddingOf, h1, h2, List.getElem?_append_right (Nat.le_add_right _ _),
    Nat.add_sub_cancel_left]

/-- Digits are not padding. -/
theorem paddingOf_eq_zero {u : List UInt8} (h : Base64.pad ∉ u) : paddingOf u = 0 := by
  have hne : ∀ i : ℕ, u[i]? ≠ some Base64.pad := fun i hi => h (List.mem_of_getElem? hi)
  rw [paddingOf, if_neg (hne _), if_neg (hne _)]

/-- **A group in front of a text**, which is a group or more itself, or has no
    padding. -/
theorem textBytes_group {x y z w : UInt8} {u : List UInt8}
    (h : 4 ≤ u.length ∨ Base64.pad ∉ x :: y :: z :: w :: u) :
    textBytes (x :: y :: z :: w :: u) =
      groupBytes (chr2Base x, chr2Base y, chr2Base z, chr2Base w) ++ textBytes u := by
  have hlen : (x :: y :: z :: w :: u).length / 4 = u.length / 4 + 1 := by
    simp only [List.length_cons]; omega
  have hpad : paddingOf (x :: y :: z :: w :: u) = paddingOf u := by
    rcases h with h | h
    · exact paddingOf_append [x, y, z, w] (by omega)
    · rw [paddingOf_eq_zero h, paddingOf_eq_zero]
      exact fun hu => h (by simp [hu])
  have hle : paddingOf u ≤ 3 * (u.length / 4) := by
    have := paddingOf_le u
    rcases h with h | h
    · omega
    · rw [paddingOf_eq_zero fun hu => h (by simp [hu])]
      omega
  rw [textBytes, hlen, hpad, groupsBytes, textBytes,
    show 3 * (u.length / 4 + 1) - paddingOf u = 3 + (3 * (u.length / 4) - paddingOf u) by omega]
  exact @List.take_length_add_append _ (groupBytes _) _ _

/-- A text of one group. -/
theorem textBytes_four (x y z w : UInt8) : textBytes [x, y, z, w] =
    (groupBytes (chr2Base x, chr2Base y, chr2Base z, chr2Base w)).take
      (3 - paddingOf [x, y, z, w]) := by
  simp [textBytes, groupsBytes]

theorem textBytes_one : textBytes (Base64.encode [a]) = [a] := by
  have h := groupBytes_zeroLast (y := 2) (by decide) (chr2Base (Base64.digit (a.toNat / 4)),
    chr2Base (Base64.digit (a.toNat % 4 * 16)), chr2Base Base64.pad, chr2Base Base64.pad)
  rw [groupBytes_one] at h
  have hpad : paddingOf (Base64.encode [a]) = 2 := by
    rw [Base64.encode_one]
    simp [paddingOf]
  rw [Base64.encode_one] at hpad ⊢
  rw [textBytes_four, hpad, ← h]

theorem textBytes_two : textBytes (Base64.encode [a, b]) = [a, b] := by
  have hb := b.toNat_lt
  have hd := Base64.digit_ne_pad (v := b.toNat % 16 * 4) (by omega)
  have hpad : paddingOf (Base64.encode [a, b]) = 1 := by
    rw [Base64.encode_two]
    simp [paddingOf, hd]
  have h := groupBytes_zeroLast (y := 1) (by decide) (chr2Base (Base64.digit (a.toNat / 4)),
    chr2Base (Base64.digit (a.toNat % 4 * 16 + b.toNat / 16)),
    chr2Base (Base64.digit (b.toNat % 16 * 4)), chr2Base Base64.pad)
  rw [groupBytes_two] at h
  rw [Base64.encode_two] at hpad ⊢
  rw [textBytes_four, hpad, ← h]

/-- The digits of a whole group. -/
theorem pad_notMem_group : Base64.pad ∉ [Base64.digit (a.toNat / 4),
    Base64.digit (a.toNat % 4 * 16 + b.toNat / 16), Base64.digit (b.toNat % 16 * 4 + c.toNat / 64),
    Base64.digit (c.toNat % 64)] := by
  have ha := a.toNat_lt
  have hb := b.toNat_lt
  have hc := c.toNat_lt
  have h1 := Base64.digit_ne_pad (v := a.toNat / 4) (by omega)
  have h2 := Base64.digit_ne_pad (v := a.toNat % 4 * 16 + b.toNat / 16) (by omega)
  have h3 := Base64.digit_ne_pad (v := b.toNat % 16 * 4 + c.toNat / 64) (by omega)
  have h4 := Base64.digit_ne_pad (v := c.toNat % 64) (by omega)
  simp [h1.symm, h2.symm, h3.symm, h4.symm]

/-- **A Base64 text stands for the bytes encoded.** -/
theorem textBytes_encode (s : List UInt8) : textBytes (Base64.encode s) = s := by
  induction s using Base64.group_induction with
  | nil => rfl
  | one a => exact textBytes_one
  | two a b => exact textBytes_two
  | more a b c s ih =>
    rw [Base64.encode_three, textBytes_group, groupBytes_three, ih]
    · rfl
    · by_cases h0 : s = []
      · subst h0
        exact .inr pad_notMem_group
      · have := List.length_pos_of_ne_nil h0
        left
        rw [Base64.length_encode]
        omega

/-- **The decoder gives the bytes back**, if there is room for them and a
    terminator. -/
theorem decode_spec (hb : DecodeBufs m inp out outLen) (hs : m.IsStr inp (Base64.encode s))
    (hr : (s.length : ℤ) ≤ outLen) :
    base64Decode m inp out (outLen + 1) = some (m.put out (s ++ [0]), s.length) := by
  obtain ⟨n, rfl⟩ : ∃ n : ℕ, outLen = n := ⟨outLen.toNat, by omega⟩
  have hint := hb.int
  have hf := filtered_eq_self (filter_encode s)
  have hlen := length_textBytes (Base64.encode s)
  rw [textBytes_encode] at hlen
  have hbytes : decoded n (Base64.encode s) = s := by
    rw [decoded_eq (by rw [textBytes_encode]; omega), textBytes_encode]
  obtain ⟨-, r, hr⟩ := id hs
  have h := decode_text hb hs (by rw [hf]; omega)
  rw [hf, filter_encode, hbytes, Mem.put_prefix ⟨0 :: r, hr.symm⟩] at h
  exact h

end CppExperiment.STD
