/-
  Loops that look for the end of a run of bytes in memory.

  `scan` goes forward and needs a byte that stops it; `scanBack` goes back and
  stops at the start of the block at the latest.
-/
import CppExperiment.Lib.Memory

namespace CppExperiment.Mem

/-- `while (p(b[k])) ++k;` -/
def scan (p : UInt8 → Bool) (m : Mem) (b : ℕ) : (fuel k : ℕ) → Option ℕ
  | 0, _ => none
  | fuel + 1, k => do
    let c ← m.load b k
    if p c then scan p m b fuel (k + 1) else some k

/-- `while (j >= 0 && p(b[j])) --j;`, with `n = j + 1`. -/
def scanBack (p : UInt8 → Bool) (m : Mem) (b : ℕ) : (n : ℕ) → Option ℕ
  | 0 => some 0
  | n + 1 => do
    let c ← m.load b n
    if p c then scanBack p m b n else some (n + 1)

variable {m : Mem} {b i fuel : ℕ} {p : UInt8 → Bool} {r t : List UInt8} {c : UInt8}

theorem scan_eq (hat : m.At b i (r ++ c :: t)) (hr : ∀ x ∈ r, p x) (hc : ¬ p c)
    (hfuel : r.length < fuel) : scan p m b fuel i = some (i + r.length) := by
  induction r generalizing fuel i with
  | nil =>
    obtain ⟨fuel, rfl⟩ := Nat.exists_eq_succ_of_ne_zero (Nat.ne_zero_of_lt hfuel)
    rw [List.nil_append] at hat
    rw [scan, hat.load, Option.bind_eq_bind, Option.bind_some, if_neg hc]
    rfl
  | cons x r ih =>
    obtain ⟨fuel, rfl⟩ := Nat.exists_eq_succ_of_ne_zero (Nat.ne_zero_of_lt hfuel)
    obtain ⟨hx, hr⟩ := List.forall_mem_cons.1 hr
    rw [List.cons_append] at hat
    rw [List.length_cons] at hfuel ⊢
    rw [scan, hat.load, Option.bind_eq_bind, Option.bind_some, if_pos hx,
      ih hat.tail hr (by omega), Nat.add_assoc, Nat.add_comm 1]

theorem scanBack_eq (hat : m.At b 0 (t ++ r)) (hr : ∀ x ∈ r, p x)
    (ht : ∀ x, t.getLast? = some x → ¬ p x) : scanBack p m b (t ++ r).length = some t.length := by
  induction r using List.reverseRecOn with
  | nil =>
    rw [List.append_nil] at hat ⊢
    rcases List.eq_nil_or_concat t with rfl | ⟨t, x, rfl⟩
    · rfl
    · rw [List.concat_eq_append] at hat ht ⊢
      have hload := hat.drop.load
      rw [Nat.zero_add] at hload
      rw [List.length_append, List.length_singleton, scanBack, hload, Option.bind_eq_bind,
        Option.bind_some, if_neg (ht x List.getLast?_concat)]
  | append_singleton r x ih =>
    rw [← List.append_assoc] at hat
    have hload := hat.drop.load
    have hlen : (t ++ r ++ [x]).length = (t ++ r).length + 1 := List.length_append
    rw [Nat.zero_add] at hload
    rw [← List.append_assoc, hlen, scanBack, hload, Option.bind_eq_bind, Option.bind_some,
      if_pos (hr x (by simp)), ih hat.of_append fun y hy => hr y (List.mem_append_left _ hy)]

/-- The letters `c` at the start of a string. -/
theorem IsStr.scan_front {k : ℕ} (h : m.IsStr b (List.replicate k c ++ t))
    (hhead : t.head? ≠ some c) (hc : c ≠ 0) :
    scan (· = c) m b (m b).length 0 = some k := by
  have hlt := h.length_lt
  have hend := h.at_end
  have hall : ∀ x ∈ List.replicate k c, decide (x = c) = true :=
    fun x hx => decide_eq_true (List.eq_of_mem_replicate hx)
  have hk : (List.replicate k c).length < (m b).length := by
    rw [List.length_append] at hlt
    omega
  rw [List.append_assoc] at hend
  have hscan : scan (· = c) m b (m b).length 0 = some (0 + (List.replicate k c).length) := by
    cases t with
    | nil => exact scan_eq hend hall (by simpa using Ne.symm hc) hk
    | cons x t =>
      have hx : x ≠ c := fun h => hhead (by rw [h]; rfl)
      exact scan_eq hend hall (by simpa using hx) hk
  rwa [Nat.zero_add, List.length_replicate] at hscan

end CppExperiment.Mem
