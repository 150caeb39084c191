/-
  Byte memory and C strings.

  Memory is a family of blocks; a pointer is a block and an index into it.
  Reading or writing outside a block is undefined behaviour: `none`.

  * `Mem.put m b s` is the memory after `s` has been written to the start of
    the block `b`.  A loop that writes a block from left to right is always in
    such a state (`store_put`), and what lies behind the text is still the old
    contents (`load_put_ge`), also for a loop that reads the block it writes.
  * `cstr` is the C string at the start of a block, `strlen` its length.
-/
import Mathlib

namespace CppExperiment

/-- The contents of the blocks. -/
abbrev Mem := ℕ → List UInt8

namespace Mem

/-- Read the byte at index `i` of the block `b`. -/
def load (m : Mem) (b i : ℕ) : Option UInt8 := (m b)[i]?

/-- Write the byte at index `i` of the block `b`. -/
def store (m : Mem) (b i : ℕ) (c : UInt8) : Option Mem :=
  if i < (m b).length then some (Function.update m b ((m b).set i c)) else none

/-- Write some bytes, from index `i` on. -/
def storeAll (m : Mem) (b i : ℕ) : List UInt8 → Option Mem
  | [] => some m
  | c :: cs => do
    let m ← m.store b i c
    m.storeAll b (i + 1) cs

/-- Read `n` bytes, from index `i` on. -/
def loadAll (m : Mem) (b i : ℕ) : (n : ℕ) → Option (List UInt8)
  | 0 => some []
  | n + 1 => do
    let c ← m.load b i
    let cs ← m.loadAll b (i + 1) n
    some (c :: cs)

/-- `memcpy` of `n` bytes. -/
def memcpy (m : Mem) (dest i src j n : ℕ) : Option Mem := do
  let cs ← m.loadAll src j n
  m.storeAll dest i cs

/-- The text `s` stands at the start of the block `b`; the rest of the block is
    as in `m`. -/
def put (m : Mem) (b : ℕ) (s : List UInt8) : Mem :=
  Function.update m b (s ++ (m b).drop s.length)

variable {m : Mem} {b b' i : ℕ} {s : List UInt8} {c : UInt8}

theorem put_nil : m.put b [] = m := by simp [put]

theorem put_self : (m.put b s) b = s ++ (m b).drop s.length := by simp [put]

theorem put_ne (h : b' ≠ b) : (m.put b s) b' = m b' := by simp [put, h]

theorem length_put (h : s.length ≤ (m b).length) : ((m.put b s) b).length = (m b).length := by
  rw [put_self, List.length_append, List.length_drop]; omega

/-- Writing what is there already. -/
theorem put_prefix (h : s <+: m b) : m.put b s = m := by
  obtain ⟨r, hr⟩ := h
  rw [put, ← hr, List.drop_left, hr, Function.update_eq_self]

/-- A longer text covers a shorter one. -/
theorem put_put {t : List UInt8} (h : s.length ≤ t.length) : (m.put b s).put b t = m.put b t := by
  have hd : ((m.put b s) b).drop t.length = (m b).drop t.length := by
    rw [put_self, List.drop_append, List.drop_eq_nil_of_le h, List.nil_append, List.drop_drop]
    congr 1; omega
  rw [put, hd, put, put, Function.update_idem]

theorem load_put_ne (h : b' ≠ b) : (m.put b s).load b' i = m.load b' i := by
  rw [load, put_ne h, load]

/-- What lies behind the text is the old contents. -/
theorem load_put_ge (h : s.length ≤ i) : (m.put b s).load b i = m.load b i := by
  rw [load, put_self, List.getElem?_append_right h, List.getElem?_drop, load]
  congr 1; omega

/-- What is read is the old contents, unless it stands in the text. -/
theorem load_put (h : b' = b → s.length ≤ i) : (m.put b s).load b' i = m.load b' i := by
  by_cases hb : b' = b
  · subst hb; exact load_put_ge (h rfl)
  · exact load_put_ne hb

/-- **Writing the next byte.** -/
theorem store_put (hi : i = s.length) (h : i < (m b).length) :
    (m.put b s).store b i c = some (m.put b (s ++ [c])) := by
  subst hi
  have hlen : s.length < ((m.put b s) b).length := by rw [length_put h.le]; exact h
  rw [store, if_pos hlen, put_self, List.set_append_right _ _ le_rfl, Nat.sub_self,
    List.drop_eq_getElem_cons h, List.set_cons_zero, put, put, Function.update_idem]
  simp

/-- Writing the first byte. -/
theorem store_zero (h : 0 < (m b).length) : m.store b 0 c = some (m.put b [c]) := by
  have hs := store_put (m := m) (s := []) (c := c) rfl h
  rwa [put_nil] at hs

/-- There is no room for the next byte. -/
theorem store_put_none (hi : (m b).length ≤ i) (hs : s.length ≤ (m b).length) :
    (m.put b s).store b i c = none := by
  rw [store, if_neg (by rw [length_put hs]; omega)]

/-- The next byte stands there already. -/
theorem put_append_load (h : m.load b s.length = some c) : m.put b (s ++ [c]) = m.put b s := by
  obtain ⟨hlt, hc⟩ := List.getElem?_eq_some_iff.1 h
  rw [put, put, List.drop_eq_getElem_cons hlt, hc, List.length_append, List.length_singleton,
    List.append_assoc, List.singleton_append]

theorem storeAll_singleton : m.storeAll b i [c] = m.store b i c := by
  cases h : m.store b i c <;> rw [storeAll, h] <;> rfl

/-- Writing the next bytes. -/
theorem storeAll_put {cs : List UInt8} (hi : i = s.length) (h : i + cs.length ≤ (m b).length) :
    (m.put b s).storeAll b i cs = some (m.put b (s ++ cs)) := by
  induction cs generalizing s i with
  | nil => rw [List.append_nil]; rfl
  | cons c cs ih =>
    rw [List.length_cons] at h
    have ih := ih (s := s ++ [c]) (i := i + 1) (by simp [hi]) (by omega)
    rw [List.append_assoc, List.singleton_append] at ih
    rw [storeAll, store_put hi (by omega)]
    exact ih

/-- `memmove` of `n` bytes: the source may overlap what is written. -/
def memmove (m : Mem) (dest i src j n : ℕ) : Option Mem := m.memcpy dest i src j n

/-- `strncpy` of `n` bytes, from index `i` on: NULs behind a terminator. -/
def strncpy (dest src : ℕ) : (n : ℕ) → Mem → (i : ℕ) → Option Mem
  | 0, m, _ => some m
  | n + 1, m, i => do
    let c ← m.load src i
    let m ← m.store dest i c
    if c = 0 then m.storeAll dest (i + 1) (List.replicate n 0)
    else strncpy dest src n m (i + 1)

/-- The memories are the same but for the contents of the block `b`. -/
structure SameBut (m : Mem) (b : ℕ) (m' : Mem) : Prop where
  eq : ∀ b', b' ≠ b → m' b' = m b'
  length : (m' b).length = (m b).length

theorem SameBut.symm {m' : Mem} (h : m.SameBut b m') : m'.SameBut b m :=
  ⟨fun b' hb => (h.eq b' hb).symm, h.length.symm⟩

theorem SameBut.trans {m' m'' : Mem} (h : m.SameBut b m') (h' : m'.SameBut b m'') :
    m.SameBut b m'' :=
  ⟨fun b' hb => (h'.eq b' hb).trans (h.eq b' hb), h'.length.trans h.length⟩

theorem sameBut_put (h : s.length ≤ (m b).length) : m.SameBut b (m.put b s) :=
  ⟨fun _ hb => put_ne hb, length_put h⟩

/-! ## Texts at an index -/

/-- The bytes `s` stand in the block `b`, from the index `i` on. -/
def At (m : Mem) (b i : ℕ) (s : List UInt8) : Prop := s <+: (m b).drop i

theorem At.load (h : m.At b i (c :: s)) : m.load b i = some c := by
  obtain ⟨r, hr⟩ := h
  have hl : ((m b).drop i)[0]? = some c := by rw [← hr]; rfl
  rwa [List.getElem?_drop, Nat.add_zero] at hl

theorem At.tail (h : m.At b i (c :: s)) : m.At b (i + 1) s := by
  obtain ⟨r, hr⟩ := h
  exact ⟨r, by rw [← List.drop_drop, ← hr]; rfl⟩

theorem At.of_append {t : List UInt8} (h : m.At b i (s ++ t)) : m.At b i s :=
  (List.prefix_append s t).trans h

/-- What stands behind a text. -/
theorem At.drop {t : List UInt8} (h : m.At b i (s ++ t)) : m.At b (i + s.length) t := by
  obtain ⟨r, hr⟩ := h
  exact ⟨r, by rw [← List.drop_drop, ← hr, List.append_assoc, List.drop_left]⟩

theorem At.loadAll (h : m.At b i s) : m.loadAll b i s.length = some s := by
  induction s generalizing i with
  | nil => rfl
  | cons c s ih =>
    rw [List.length_cons, Mem.loadAll, h.load, Option.bind_eq_bind, Option.bind_some, ih h.tail]
    rfl

/-- A letter of a text in another block. -/
theorem SameBut.load_start {m' : Mem} {t : List UInt8} (h : m.SameBut b' m') (hb : b ≠ b')
    (hat : m.At b 0 t) (hst : s ++ [c] <+: t) : m'.load b s.length = some c := by
  have hat' : m.At b 0 (s ++ [c]) := hst.trans hat
  rw [Mem.load, h.eq b hb, ← Nat.zero_add s.length]
  exact hat'.drop.load

/-- `memcpy` of a text to the start of a block. -/
theorem At.memcpy_put (h : m.At b i s) (hsz : s.length ≤ (m b').length) :
    m.memcpy b' 0 b i s.length = some (m.put b' s) := by
  have hput := @storeAll_put m b' 0 [] s rfl ((Nat.zero_add _).trans_le hsz)
  rw [put_nil, List.nil_append] at hput
  rw [Mem.memcpy, h.loadAll, Option.bind_eq_bind, Option.bind_some, hput]

/-- Nothing stands behind the end of the block. -/
theorem loadAll_over {n : ℕ} (hn : 0 < n) (h : (m b).length < i + n) : m.loadAll b i n = none := by
  induction n generalizing i with
  | zero => exact absurd hn (lt_irrefl 0)
  | succ n ih =>
    rw [Mem.loadAll]
    cases hc : m.load b i with
    | none => rfl
    | some c =>
      have hi : i < (m b).length := (List.getElem?_eq_some_iff.1 hc).1
      rw [Option.bind_eq_bind, Option.bind_some, ih (by omega) (by omega)]
      rfl

theorem at_put : (m.put b s).At b 0 s := by
  rw [At, List.drop_zero, put_self]
  exact List.prefix_append _ _

/-- What stands somewhere is determined by its length. -/
theorem At.eq_of_length {t : List UInt8} (h : m.At b i s) (h' : m.At b i t)
    (hl : s.length = t.length) : s = t :=
  (List.prefix_of_prefix_length_le h h' hl.le).eq_of_length hl

theorem At.put_ne {t : List UInt8} (h : m.At b i s) (hb : b ≠ b') : (m.put b' t).At b i s := by
  rwa [At, Mem.put_ne hb]

/-- `strncpy` of a text without a NUL. -/
theorem strncpy_put {p : List UInt8} (hne : b ≠ b') (hat : m.At b p.length s) (h0 : 0 ∉ s)
    (hsz : (p ++ s).length ≤ (m b').length) :
    strncpy b' b s.length (m.put b' p) p.length = some (m.put b' (p ++ s)) := by
  induction s generalizing p with
  | nil => rw [List.append_nil]; rfl
  | cons c s ih =>
    rw [List.mem_cons, not_or] at h0
    rw [List.append_cons] at hsz ⊢
    have ih := ih (p := p ++ [c]) (by simpa using hat.tail) h0.2 hsz
    rw [List.length_append, List.length_append, List.length_singleton] at hsz
    rw [List.length_append, List.length_singleton] at ih
    rw [List.length_cons, strncpy, load_put_ne hne, hat.load, Option.bind_eq_bind,
      Option.bind_some, store_put rfl (by omega), Option.bind_eq_bind, Option.bind_some,
      if_neg (Ne.symm h0.1), ih]

/-- `strncpy` of a whole string: the rest is filled with NULs. -/
theorem strncpy_fill {p : List UInt8} {n : ℕ} (hne : b ≠ b') (hat : m.At b p.length (s ++ [0]))
    (h0 : 0 ∉ s) (hn : s.length < n) (hsz : p.length + n ≤ (m b').length) :
    strncpy b' b n (m.put b' p) p.length =
      some (m.put b' (p ++ s ++ List.replicate (n - s.length) 0)) := by
  induction s generalizing p n with
  | nil =>
    obtain ⟨n, rfl⟩ := Nat.exists_eq_succ_of_ne_zero (Nat.ne_zero_of_lt hn)
    rw [strncpy, load_put_ne hne, hat.load, Option.bind_eq_bind, Option.bind_some,
      store_put rfl (by omega), Option.bind_eq_bind, Option.bind_some, if_pos rfl,
      storeAll_put (by simp) (by rw [List.length_replicate]; omega), List.append_nil,
      List.length_nil, Nat.sub_zero, List.replicate_succ, List.append_assoc]
    rfl
  | cons c s ih =>
    obtain ⟨n, rfl⟩ := Nat.exists_eq_succ_of_ne_zero (Nat.ne_zero_of_lt hn)
    rw [List.mem_cons, not_or] at h0
    rw [List.length_cons] at hn
    have ih := @ih (p ++ [c]) n (by simpa using hat.tail) h0.2 (by omega)
      (by rw [List.length_append, List.length_singleton]; omega)
    rw [List.length_append, List.length_singleton] at ih
    rw [strncpy, load_put_ne hne, hat.load, Option.bind_eq_bind, Option.bind_some,
      store_put rfl (by omega), Option.bind_eq_bind, Option.bind_some, if_neg (Ne.symm h0.1), ih,
      List.length_cons, Nat.succ_sub_succ, List.append_assoc p [c], List.singleton_append]

/-- `strncpy` reads behind the end of a block without a NUL. -/
theorem strncpy_over {dest src n : ℕ} (hne : src ≠ dest) (h0 : 0 ∉ m src) (hn : 0 < n)
    (h : (m src).length < i + n) : strncpy dest src n m i = none := by
  induction n generalizing m i with
  | zero => exact absurd hn (lt_irrefl 0)
  | succ n ih =>
    rw [strncpy]
    cases hc : m.load src i with
    | none => rfl
    | some c =>
      obtain ⟨hi, hic⟩ := List.getElem?_eq_some_iff.1 hc
      have hc0 : c ≠ 0 := fun hz => h0 (hz ▸ hic ▸ List.getElem_mem hi)
      rw [Option.bind_eq_bind, Option.bind_some, store]
      split_ifs with hd
      · have hsrc : Function.update m dest ((m dest).set i c) src = m src :=
          Function.update_of_ne hne _ _
        exact ih (by rwa [hsrc]) (by omega) (by rw [hsrc]; omega)
      · rfl

end Mem

/-! ## C strings -/

/-- The C string at the start of a block. -/
def cstr (xs : List UInt8) : List UInt8 := xs.takeWhile (· ≠ 0)

theorem cstr_eq_self {s : List UInt8} (hs : 0 ∉ s) : cstr s = s := by
  rw [cstr, List.takeWhile_eq_self_iff]
  intro a ha
  rw [decide_eq_true_eq]
  rintro rfl
  exact hs ha

/-- What stands behind a NUL does not matter. -/
theorem cstr_append_zero (s r : List UInt8) : cstr (s ++ 0 :: r) = cstr s := by
  induction s with
  | nil => rfl
  | cons c s ih =>
    rw [cstr, cstr] at ih ⊢
    by_cases hc : c = 0
    · rw [List.cons_append, List.takeWhile_cons_of_neg (by simp [hc]),
        List.takeWhile_cons_of_neg (by simp [hc])]
    · rw [List.cons_append, List.takeWhile_cons_of_pos (by simp [hc]),
        List.takeWhile_cons_of_pos (by simp [hc]), ih]

/-- The text is followed by a NUL, and has none itself. -/
theorem cstr_eq {xs s r : List UInt8} (hs : 0 ∉ s) (h : xs = s ++ 0 :: r) : cstr xs = s := by
  rw [h, cstr_append_zero, cstr_eq_self hs]

/-- `strlen` of the string at the start of the block `b`. -/
def Mem.strlen (m : Mem) (b : ℕ) : Option ℕ :=
  if 0 ∈ m b then some (cstr (m b)).length else none

/-- `strlen` of the string at index `i`. -/
def Mem.strlenFrom (m : Mem) (b i : ℕ) : Option ℕ :=
  if 0 ∈ (m b).drop i then some (cstr ((m b).drop i)).length else none

/-- `strcpy`: undefined if what is read and what is written overlap. -/
def Mem.strcpy (m : Mem) (dest i src j : ℕ) : Option Mem := do
  let n ← m.strlenFrom src j
  if dest = src ∧ i ≤ j + n ∧ j ≤ i + n then none else m.memcpy dest i src j (n + 1)

/-- The string `s` and its terminator stand at the start of the block `b`. -/
def Mem.IsStr (m : Mem) (b : ℕ) (s : List UInt8) : Prop := 0 ∉ s ∧ ∃ r, m b = s ++ 0 :: r

namespace Mem
variable {m : Mem} {b b' i : ℕ} {s : List UInt8} {c : UInt8}

theorem IsStr.cstr (h : m.IsStr b s) : cstr (m b) = s := by
  obtain ⟨h0, r, hr⟩ := h; exact cstr_eq h0 hr

theorem IsStr.strlen (h : m.IsStr b s) : m.strlen b = some s.length := by
  obtain ⟨h0, r, hr⟩ := id h
  rw [Mem.strlen, if_pos (by rw [hr]; simp), h.cstr]

theorem IsStr.length_lt (h : m.IsStr b s) : s.length < (m b).length := by
  obtain ⟨-, r, hr⟩ := h; rw [hr]; simp

theorem IsStr.at (h : m.IsStr b s) : m.At b 0 s := by
  obtain ⟨-, r, hr⟩ := h
  exact ⟨0 :: r, hr.symm⟩

theorem IsStr.at_end (h : m.IsStr b s) : m.At b 0 (s ++ [0]) := by
  obtain ⟨-, r, hr⟩ := h
  exact ⟨r, by rw [hr, List.append_assoc]; rfl⟩

/-- A block with a NUL is a string. -/
theorem isStr_cstr (h : 0 ∈ m b) : m.IsStr b (cstr (m b)) := by
  obtain ⟨s, r, hm, h0⟩ := List.eq_append_cons_of_mem h
  rw [cstr_eq h0 hm]
  exact ⟨h0, r, hm⟩

/-- A text written with its terminator is a string. -/
theorem isStr_put (h0 : 0 ∉ s) : (m.put b (s ++ [0])).IsStr b s :=
  ⟨h0, (m b).drop (s ++ [0]).length, by rw [put_self]; simp⟩

/-- A NUL behind a text makes it a string. -/
theorem isStr_store (hat : m.At b 0 s) (h0 : 0 ∉ s) (hsz : s.length < (m b).length) :
    ∃ m', m.store b s.length 0 = some m' ∧ m.SameBut b m' ∧ m'.IsStr b s := by
  obtain ⟨r, hr⟩ := hat
  rw [List.drop_zero] at hr
  refine ⟨_, if_pos hsz, ⟨fun b' hb => Function.update_of_ne hb _ _, ?_⟩, h0, ?_⟩
  · rw [Function.update_self, List.length_set]
  · cases r with
    | nil => rw [← hr, List.append_nil] at hsz; exact absurd hsz (lt_irrefl _)
    | cons c r =>
      exact ⟨r, by rw [Function.update_self, ← hr, List.set_append_right _ _ le_rfl, Nat.sub_self,
        List.set_cons_zero]⟩

theorem At.strlenFrom (hat : m.At b i (s ++ [0])) (h0 : 0 ∉ s) :
    m.strlenFrom b i = some s.length := by
  obtain ⟨r, hr⟩ := hat
  rw [List.append_assoc] at hr
  rw [Mem.strlenFrom, if_pos (by rw [← hr]; simp), cstr_eq h0 hr.symm]

/-- `strcpy` to the start of the block that the string stands in. -/
theorem At.strcpy (hat : m.At b i (s ++ [0])) (h0 : 0 ∉ s) :
    m.strcpy b 0 b i = if i ≤ s.length then none else some (m.put b (s ++ [0])) := by
  rw [Mem.strcpy, hat.strlenFrom h0, Option.bind_eq_bind, Option.bind_some]
  by_cases hi : i ≤ s.length
  · rw [if_pos ⟨rfl, Nat.zero_le _, by omega⟩, if_pos hi]
  · have hcount : s.length + 1 = (s ++ [0]).length := by
      rw [List.length_append, List.length_singleton]
    have hroom := hat.length_le
    rw [List.length_drop] at hroom
    have hput := @storeAll_put m b 0 [] (s ++ [0]) rfl (by omega)
    rw [put_nil, List.nil_append] at hput
    rw [if_neg (by omega), if_neg hi, memcpy, hcount, hat.loadAll, Option.bind_eq_bind,
      Option.bind_some, hput]

/-- `strcpy` to another block. -/
theorem IsStr.strcpy_put (h : m.IsStr b s) (hb : b ≠ b') (hsz : s.length < (m b').length) :
    m.strcpy b' 0 b 0 = some (m.put b' (s ++ [0])) := by
  have hcount : s.length + 1 = (s ++ [0]).length := by
    rw [List.length_append, List.length_singleton]
  rw [Mem.strcpy, h.at_end.strlenFrom h.1, Option.bind_eq_bind, Option.bind_some,
    if_neg fun h => hb h.1.symm, hcount, h.at_end.memcpy_put (by omega)]

theorem IsStr.put_ne {t : List UInt8} (h : m.IsStr b s) (hb : b ≠ b') : (m.put b' t).IsStr b s := by
  obtain ⟨h0, r, hr⟩ := h
  exact ⟨h0, r, by rw [Mem.put_ne hb, hr]⟩

end Mem

end CppExperiment
