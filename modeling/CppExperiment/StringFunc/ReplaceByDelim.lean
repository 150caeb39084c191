/-
  `str::ReplaceByDelim` of CommonTools/StringFunc.cc: the `n`-th field of a
  text is replaced.

  The field stands between `firstPos`, an `int`, and `nextPos`, a `size_t`.
  Without a separator behind the field, `nextPos` is the index of the last
  character, which is therefore kept.

  `replaceByDelim_iff`: exactly when the other fields and the separators are
  left as they are.
-/
import CppExperiment.STD.Base64
import CppExperiment.StringFunc.Split

namespace CppExperiment.StringFunc
open StdString

/-- A number as a `size_t`. -/
def toSize (z : ℤ) : ℕ := (z % 2 ^ 64).toNat

/-- The loop of `ReplaceByDelim`, for at most `k` rounds: `firstPos` and
    `nextPos`. -/
def delimLoop (src : Str) (delim : UInt8) (n : ℕ) :
    (k i pos : ℕ) → (firstPos : ℤ) → (nextPos : ℕ) → ℤ × ℕ
  | 0, _, _, firstPos, nextPos => (firstPos, nextPos)
  | k + 1, i, pos, firstPos, nextPos =>
    match findFirstOf src delim pos with
    | none => (firstPos, nextPos)
    | some pos =>
      if i = toSize (n - 1) then delimLoop src delim n k (i + 1) (pos + 1) firstPos pos
      else if i = toSize (n - 2) then
        delimLoop src delim n k (i + 1) (pos + 1) (STD.toInt pos) nextPos
      else delimLoop src delim n k (i + 1) (pos + 1) firstPos nextPos

/-- The last statement of `ReplaceByDelim`. -/
def replaceBetween (src : Str) (firstPos : ℤ) (nextPos : ℕ) (rpDst : Str) : Option Str := do
  let first ← STD.addInt firstPos 1
  replace src (toSize first) (toSize (nextPos - firstPos - 1)) rpDst

/-- `ReplaceByDelim(src, delim, n, rpDst)`: what it leaves in `src`; `none` if
    `replace` throws. -/
def replaceByDelim (src : Str) (delim : UInt8) (n : ℕ) (rpDst : Str) : Option Str :=
  let (firstPos, nextPos) :=
    delimLoop src delim n (toSize (n - 1) + 1) 0 0 (-1) (toSize (src.length - 1))
  replaceBetween src firstPos nextPos rpDst

variable {src rpDst p r u y : Str} {delim : UInt8} {n i j pos x : ℕ} {f : ℤ}

/-! ## The loop -/

theorem toSize_eq {z : ℤ} (h : 0 ≤ z) (h' : z < 2 ^ 64) : toSize z = z.toNat := by
  rw [toSize, Int.emod_eq_of_lt h h']

/-- The loop over the fields in front of the `n`-th one. -/
theorem delimLoop_leads (hp : Leads delim j p) (hsrc : src.drop pos = p ++ r)
    (hn : i + j + 1 = n) (hn' : n < 2 ^ 64) :
    delimLoop src delim n (j + 1) i pos f x =
      delimLoop src delim n 1 (i + j) (pos + p.length)
        (if j = 0 then f else STD.toInt ((pos + p.length : ℕ) - 1)) x := by
  induction hp generalizing i pos f with
  | nil => rfl
  | @cons j u p hu hp ih =>
    rw [List.append_assoc, List.cons_append] at hsrc
    have hlast : ¬ i = toSize (n - 1) := by rw [toSize_eq (by omega) (by omega)]; omega
    have hdrop := drop_behind hsrc
    have hpos : pos + u.length + 1 + p.length = pos + (u ++ delim :: p).length := by
      rw [List.length_append, List.length_cons]
      omega
    rw [delimLoop, findFirstOf_mem hu hsrc]
    dsimp only
    rw [if_neg hlast, ih hdrop (by omega), ih hdrop (by omega), hpos, if_neg (Nat.succ_ne_zero j),
      Nat.add_assoc i, Nat.add_comm 1]
    cases j with
    | zero =>
      cases hp
      have hfirst : i = toSize (n - 2) := by rw [toSize_eq (by omega) (by omega)]; omega
      have hend : ((pos + u.length : ℕ) : ℤ) = (pos + (u ++ [delim]).length : ℕ) - 1 := by
        rw [List.length_append, List.length_singleton]
        omega
      rw [if_pos hfirst, if_pos rfl, hend]
    | succ j =>
      have hfirst : ¬ i = toSize (n - 2) := by rw [toSize_eq (by omega) (by omega)]; omega
      rw [if_neg hfirst, if_neg (Nat.succ_ne_zero j)]

/-- The loop on a text with less than `j` separators. -/
theorem delimLoop_few {s : Str} (hs : s.count delim < j) (hsrc : src.drop pos = s)
    (hn : i + j + 1 = n) (hn' : n < 2 ^ 64) : delimLoop src delim n (j + 1) i pos f x = (f, x) := by
  induction s using split_induction (c := delim) generalizing i j pos with
  | last s hc => rw [delimLoop, findFirstOf_notMem (hsrc ▸ hc)]
  | step u s hu ih =>
    rw [List.count_append, List.count_eq_zero.2 hu, List.count_cons_self, Nat.zero_add] at hs
    obtain ⟨j, rfl⟩ := Nat.exists_eq_succ_of_ne_zero (Nat.ne_zero_of_lt hs)
    have hlast : ¬ i = toSize (n - 1) := by rw [toSize_eq (by omega) (by omega)]; omega
    have hfirst : ¬ i = toSize (n - 2) := by rw [toSize_eq (by omega) (by omega)]; omega
    have hdrop := drop_behind hsrc
    rw [delimLoop, findFirstOf_mem hu hsrc]
    dsimp only
    rw [if_neg hlast, if_neg hfirst, ih (by omega) hdrop (by omega)]

/-- The last round. -/
theorem delimLoop_last (hi : i + 1 = n) (hn' : n < 2 ^ 64) :
    delimLoop src delim n 1 i pos f x = (f, (findFirstOf src delim pos).getD x) := by
  have hlast : i = toSize (n - 1) := by rw [toSize_eq (by omega) (by omega)]; omega
  rw [delimLoop]
  cases findFirstOf src delim pos with
  | none => rfl
  | some pos =>
    dsimp only
    rw [if_pos hlast]
    rfl

/-! ## The field that is replaced -/

/-- What is replaced stands between the two positions; a negative start is
    behind the end of the text. -/
theorem replaceBetween_eq (hlen : src.length < 2 ^ 63) (hf : -2 ^ 31 ≤ f) (hx : f + 1 ≤ x)
    (hx' : x < 2 ^ 64) :
    replaceBetween src f x rpDst =
      if 0 ≤ f + 1 ∧ f + 1 < 2 ^ 31 ∧ f + 1 ≤ src.length then
        some (src.take (f + 1).toNat ++ (rpDst ++ src.drop x))
      else none := by
  rw [replaceBetween]
  by_cases hint : f + 1 < 2 ^ 31
  · rw [STD.addInt_eq hint, Option.bind_eq_bind, Option.bind_some, replace]
    by_cases h0 : 0 ≤ f + 1
    · have hend : (f + 1).toNat + (x - f - 1).toNat = x := by omega
      rw [toSize_eq h0 (by omega), toSize_eq (by omega) (by omega), hend]
      by_cases hle : f + 1 ≤ src.length
      · rw [if_pos (by omega), if_pos ⟨h0, hint, hle⟩]
      · rw [if_neg (by omega), if_neg fun h => hle h.2.2]
    · have hneg : src.length < toSize (f + 1) := by
        rw [toSize]
        omega
      rw [if_neg (not_le.2 hneg), if_neg fun h => h0 h.1]
  · rw [STD.addInt_overflow (not_lt.1 hint), if_neg fun h => hint h.2.1]
    rfl

/-- The first position is the last of the text: what is replaced is empty. -/
theorem replaceBetween_end (hint : src.length < 2 ^ 31) :
    replaceBetween src (src.length - 1) (toSize (src.length - 1)) rpDst = some (src ++ rpDst) := by
  have hfirst : toSize (src.length - 1 + 1) = src.length := by
    rw [toSize_eq (by omega) (by omega)]
    omega
  have hcount : src.length ≤ toSize (toSize (src.length - 1) - (src.length - 1) - 1) := by
    have h : toSize (src.length - 1 : ℤ) = ((src.length : ℤ) - 1) % 2 ^ 64 := by
      rw [toSize]
      omega
    rw [h, toSize]
    omega
  have hsum : (src.length : ℤ) - 1 + 1 < 2 ^ 31 := by omega
  rw [replaceBetween, STD.addInt_eq hsum, Option.bind_eq_bind, Option.bind_some, replace,
    if_pos hfirst.le, hfirst, List.take_length, List.drop_eq_nil_of_le (by omega), List.append_nil]

/-- `firstPos + 1` overflows. -/
theorem replaceBetween_overflow (hf : 2 ^ 31 ≤ f + 1) : replaceBetween src f x rpDst = none := by
  rw [replaceBetween, STD.addInt_overflow hf]
  rfl

/-- The last position of the text in front of the field, as an `int`. -/
def firstPos (n : ℕ) (p : Str) : ℤ := if n = 1 then -1 else STD.toInt (p.length - 1)

theorem firstPos_eq (hp : Leads delim (n - 1) p) (hint : p.length < 2 ^ 31) :
    firstPos n p = p.length - 1 := by
  rw [firstPos]
  split_ifs with h1
  · rw [h1] at hp
    cases hp
    rfl
  · exact STD.toInt_eq (by omega) (by omega)

/-- A position that is no `int` is taken for one far in front of it. -/
theorem firstPos_far (hp : Leads delim (n - 1) p) (hint : 2 ^ 31 ≤ p.length) :
    -2 ^ 31 ≤ firstPos n p ∧ (2 ^ 31 ≤ firstPos n p + 1 ∨ firstPos n p + 2 ^ 32 < p.length) := by
  rw [firstPos]
  split_ifs with h1
  · rw [h1] at hp
    cases hp
    exact absurd hint (by decide)
  · have hmod := Int.bmod_emod (x := (p.length : ℤ) - 1) (m := 2 ^ 32)
    have hge := Int.le_bmod (x := (p.length : ℤ) - 1) (m := 2 ^ 32) (by decide)
    have hlt := Int.bmod_lt (x := (p.length : ℤ) - 1) (m := 2 ^ 32) (by decide)
    rw [STD.toInt]
    omega

/-- With such a position, too much is replaced. -/
theorem length_replaceBetween_far (hp : Leads delim (n - 1) p) (hint : 2 ^ 31 ≤ p.length)
    (hlen : src.length < 2 ^ 63) (hx : p.length ≤ x + 1) (hx' : x < 2 ^ 64)
    (h : replaceBetween src (firstPos n p) x rpDst = some y) :
    y.length + 2 ^ 32 ≤ p.length + rpDst.length + (src.length - x) := by
  obtain ⟨hf, hf' | hf'⟩ := firstPos_far hp hint
  · rw [replaceBetween_overflow hf'] at h
    cases h
  · rw [replaceBetween_eq hlen hf (by omega) hx'] at h
    split_ifs at h with hcond
    rw [← Option.some_inj.1 h, List.length_append, List.length_append, List.length_take,
      List.length_drop]
    omega

/-- There are fewer fields: the text is replaced up to its last character. -/
theorem replaceByDelim_few (hs : src.count delim < n - 1) (hn' : n < 2 ^ 64)
    (hlen : src.length < 2 ^ 63) :
    replaceByDelim src delim n rpDst = some (rpDst ++ src.drop (src.length - 1)) := by
  have hk : toSize (n - 1) = n - 1 := by rw [toSize_eq (by omega) (by omega)]; omega
  have hdrop : src.drop (toSize (src.length - 1)) = src.drop (src.length - 1) := by
    by_cases hsrc : src = []
    · rw [hsrc]
      simp
    · have := List.length_pos_iff.2 hsrc
      have hlast : ((src.length : ℤ) - 1).toNat = src.length - 1 := by omega
      rw [toSize_eq (by omega) (by omega), hlast]
  rw [replaceByDelim, hk, delimLoop_few hs List.drop_zero (by omega) hn']
  change replaceBetween _ _ _ _ = _
  rw [replaceBetween_eq hlen (by decide) (by omega) (by rw [toSize]; omega),
    if_pos ⟨by decide, by decide, by omega⟩, hdrop]
  rfl

/-- The loop over a text with `n - 1` separators at least. -/
theorem replaceByDelim_leads (hp : Leads delim (n - 1) p) (hn : 1 ≤ n) (hn' : n < 2 ^ 64) :
    replaceByDelim (p ++ r) delim n rpDst = replaceBetween (p ++ r) (firstPos n p)
      ((findFirstOf (p ++ r) delim p.length).getD (toSize ((p ++ r).length - 1))) rpDst := by
  have hk : toSize (n - 1) = n - 1 := by rw [toSize_eq (by omega) (by omega)]; omega
  have hfirst : (if n - 1 = 0 then -1 else STD.toInt ((0 + p.length : ℕ) - 1)) = firstPos n p := by
    rw [firstPos, Nat.zero_add]
    congr 1
    rw [eq_iff_iff]
    omega
  rw [replaceByDelim, hk, delimLoop_leads hp List.drop_zero (by omega) hn',
    delimLoop_last (by omega) hn', hfirst, Nat.zero_add]

/-- The `n`-th field stands behind `p`, and a separator behind it. -/
theorem replaceByDelim_mem (hp : Leads delim (n - 1) p) (hu : delim ∉ u) (hn : 1 ≤ n)
    (hn' : n < 2 ^ 64) :
    replaceByDelim (p ++ (u ++ delim :: r)) delim n rpDst =
      replaceBetween (p ++ (u ++ delim :: r)) (firstPos n p) (p.length + u.length) rpDst := by
  rw [replaceByDelim_leads hp hn hn', findFirstOf_mem hu List.drop_left, Option.getD_some]

/-- The `n`-th field stands behind `p`, and is the last one. -/
theorem replaceByDelim_last (hp : Leads delim (n - 1) p) (hr : delim ∉ r) (hn : 1 ≤ n)
    (hn' : n < 2 ^ 64) :
    replaceByDelim (p ++ r) delim n rpDst =
      replaceBetween (p ++ r) (firstPos n p) (toSize ((p ++ r).length - 1)) rpDst := by
  have hdrop : delim ∉ (p ++ r).drop p.length := by rwa [List.drop_left]
  rw [replaceByDelim_leads hp hn hn', findFirstOf_notMem hdrop, Option.getD_none]

/-- A field with a separator behind it. -/
theorem replaceByDelim_mem_iff (hp : Leads delim (n - 1) p) (hu : delim ∉ u) (hn : 1 ≤ n)
    (hn' : n < 2 ^ 64) (hlen : (p ++ (u ++ delim :: r)).length < 2 ^ 63) :
    replaceByDelim (p ++ (u ++ delim :: r)) delim n rpDst = some (p ++ (rpDst ++ delim :: r)) ↔
      p.length < 2 ^ 31 := by
  have hsum : (p ++ (u ++ delim :: r)).length = p.length + u.length + (r.length + 1) := by
    rw [List.length_append, List.length_append, List.length_cons, Nat.add_assoc]
  rw [replaceByDelim_mem hp hu hn hn']
  constructor
  · intro h
    by_contra hint
    have hy := length_replaceBetween_far hp (not_lt.1 hint) hlen (by omega) (by omega) h
    rw [hsum, List.length_append, List.length_append, List.length_cons] at hy
    omega
  · intro hint
    have hf := firstPos_eq hp hint
    have hk : (firstPos n p + 1).toNat = p.length := by omega
    rw [replaceBetween_eq hlen (by omega) (by push_cast; omega) (by omega),
      if_pos ⟨by omega, by omega, by omega⟩, hk, List.take_left, ← List.drop_drop, List.drop_left,
      List.drop_left]

/-- The last field: unless it is empty, its last character stays. -/
theorem replaceByDelim_last_iff (hp : Leads delim (n - 1) p) (hr : delim ∉ r) (hn : 1 ≤ n)
    (hn' : n < 2 ^ 64) (hlen : (p ++ r).length < 2 ^ 63) :
    replaceByDelim (p ++ r) delim n rpDst = some (p ++ rpDst) ↔ p.length < 2 ^ 31 ∧ r = [] := by
  have hsum : (p ++ r).length = p.length + r.length := List.length_append
  rw [replaceByDelim_last hp hr hn hn']
  constructor
  · intro h
    have hx (h1 : 1 ≤ p.length + r.length) :
        toSize ((p ++ r).length - 1) = p.length + r.length - 1 := by
      rw [toSize_eq (by omega) (by omega)]
      omega
    have hint : p.length < 2 ^ 31 := by
      by_contra hint
      rw [hx (by omega)] at h
      have hy := length_replaceBetween_far hp (not_lt.1 hint) hlen (by omega) (by omega) h
      rw [hsum, List.length_append] at hy
      omega
    refine ⟨hint, ?_⟩
    by_contra hne
    have hpos := List.length_pos_iff.2 hne
    have hf := firstPos_eq hp hint
    rw [hx (by omega), replaceBetween_eq hlen (by omega) (by omega) (by omega),
      if_pos ⟨by omega, by omega, by omega⟩] at h
    have hy := congrArg List.length (Option.some_inj.1 h)
    rw [List.length_append, List.length_append, List.length_append, List.length_take,
      List.length_drop] at hy
    omega
  · rintro ⟨hint, rfl⟩
    rw [List.append_nil, firstPos_eq hp hint]
    exact replaceBetween_end hint

/-- **When `ReplaceByDelim` replaces the `n`-th field.** -/
theorem replaceByDelim_iff (hn : 1 ≤ n) (hn' : n < 2 ^ 64) (hlen : src.length < 2 ^ 63)
    (rpDst : Str) :
    replaceByDelim src delim n rpDst =
      some ([delim].intercalate ((src.splitOn delim).set (n - 1) rpDst)) ↔
    (src.count delim < n - 1 ∧ rpDst = src.dropLast) ∨
    ∃ p r, src = p ++ r ∧ Leads delim (n - 1) p ∧ p.length < 2 ^ 31 ∧ (r = [] ∨ delim ∈ r) := by
  by_cases hs : src.count delim < n - 1
  · have hmore (p r : Str) (h : src = p ++ r) (hp : Leads delim (n - 1) p) : False := by
      have := hp.count_le r
      rw [← h] at this
      omega
    rw [replaceByDelim_few hs hn' hlen, intercalate_set_over hs, Option.some_inj,
      List.dropLast_eq_take]
    constructor
    · intro h
      refine .inl ⟨hs, ?_⟩
      have h' := h.trans (List.take_append_drop (src.length - 1) src).symm
      exact (List.append_cancel_right_eq _ _ _).mp h'
    · rintro (⟨-, rfl⟩ | ⟨p, r, h, hp, -⟩)
      · exact List.take_append_drop _ _
      · exact (hmore p r h hp).elim
  · have hfield (p r : Str) (h : src = p ++ r) (hp : Leads delim (n - 1) p) :
        replaceByDelim src delim n rpDst =
          some ([delim].intercalate ((src.splitOn delim).set (n - 1) rpDst)) ↔
        p.length < 2 ^ 31 ∧ (r = [] ∨ delim ∈ r) := by
      subst h
      rw [hp.intercalate_set]
      by_cases hr : delim ∈ r
      · obtain ⟨u, r, rfl, hu⟩ := List.eq_append_cons_of_mem hr
        rw [intercalate_set_zero hu, replaceByDelim_mem_iff hp hu hn hn' hlen]
        exact (and_iff_left (.inr hr)).symm
      · rw [intercalate_set_last hr, replaceByDelim_last_iff hp hr hn hn' hlen, or_iff_left hr]
    constructor
    · intro h
      obtain ⟨p, r, hpr, hp⟩ := exists_leads (not_lt.1 hs)
      exact .inr ⟨p, r, hpr, hp, (hfield p r hpr hp).1 h⟩
    · rintro (⟨h, -⟩ | ⟨p, r, hpr, hp, h⟩)
      · exact absurd h hs
      · exact (hfield p r hpr hp).2 h

/-- The second field of `a|b|`. -/
theorem replaceByDelim_iff_second :
    replaceByDelim [97, 124, 98, 124] 124 2 [120] = some [97, 124, 120, 124] :=
  (replaceByDelim_iff (by decide) (by decide) (by decide) [120]).2
    (.inr ⟨[97, 124], [98, 124], rfl, .cons (u := [97]) (p := []) (by decide) .nil, by decide,
      .inr (by decide)⟩)

/-- The second field of `a|bc`: its last character stays. -/
theorem replaceByDelim_bc : replaceByDelim [97, 124, 98, 99] 124 2 [120] = some [97, 124, 120, 99] ∧
    [124].intercalate (([97, 124, 98, 99].splitOn 124).set 1 [120]) = [97, 124, (120 : UInt8)] := by
  decide +kernel

end CppExperiment.StringFunc
