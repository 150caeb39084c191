/-
  Texts of pairs: of each pair the first part, a separator `c`, the second
  part, and a separator `d`.

  * `PairText c d ps s`: `s` is the text of `ps`.  The first parts are free of
    `c` and the second parts of `d`; the last `d` may be missing, and otherwise
    a text free of `c` may stand behind it.
  * `recordText c d ps`: every pair with both separators.
  * `pairText_record`, `pairText_join`: ways in which such texts are written.
-/
import Mathlib

namespace CppExperiment

variable {α : Type*}

/-- The text of a list of pairs. -/
inductive PairText (c d : α) : List (List α × List α) → List α → Prop where
  | nil {r : List α} : c ∉ r → PairText c d [] r
  | last {k v : List α} : c ∉ k → d ∉ v → PairText c d [(k, v)] (k ++ c :: v)
  | cons {k v s : List α} {ps : List (List α × List α)} : c ∉ k → d ∉ v → PairText c d ps s →
      PairText c d ((k, v) :: ps) (k ++ c :: (v ++ d :: s))

/-- The pairs, each with both separators. -/
def recordText (c d : α) (ps : List (List α × List α)) : List α :=
  ps.flatMap fun p => p.1 ++ c :: (p.2 ++ [d])

variable {c d : α} {s : List α} {p : List α × List α} {ps qs : List (List α × List α)}

theorem recordText_cons (p : List α × List α) (ps : List (List α × List α)) :
    recordText c d (p :: ps) = p.1 ++ c :: (p.2 ++ d :: recordText c d ps) := by
  simp [recordText]

/-- Pairs in front of a text of pairs. -/
theorem pairText_record (hc : ∀ p ∈ ps, c ∉ p.1) (hd : ∀ p ∈ ps, d ∉ p.2)
    (h : PairText c d qs s) : PairText c d (ps ++ qs) (recordText c d ps ++ s) := by
  induction ps with
  | nil => exact h
  | cons p ps ih =>
    obtain ⟨hpc, hc⟩ := List.forall_mem_cons.1 hc
    obtain ⟨hpd, hd⟩ := List.forall_mem_cons.1 hd
    have hcons := PairText.cons hpc hpd (ih hc hd)
    rw [recordText_cons]
    simpa using hcons

/-- **The pairs are joined by `d`.** -/
theorem pairText_join (hc : ∀ p ∈ ps, c ∉ p.1) (hd : ∀ p ∈ ps, d ∉ p.2) :
    PairText c d ps ([d].intercalate (ps.map fun p => p.1 ++ c :: p.2)) := by
  induction ps with
  | nil => exact .nil List.not_mem_nil
  | cons p ps ih =>
    obtain ⟨hpc, hc⟩ := List.forall_mem_cons.1 hc
    obtain ⟨hpd, hd⟩ := List.forall_mem_cons.1 hd
    cases ps with
    | nil =>
      rw [List.map_singleton, List.intercalate_singleton]
      exact .last hpc hpd
    | cons q ps =>
      have hcons := PairText.cons hpc hpd (ih hc hd)
      rw [List.map_cons, List.intercalate_cons_of_ne_nil (by simp)]
      simpa using hcons

/-- The joined pairs with one more `d` behind them. -/
theorem join_append (hps : ps ≠ []) :
    [d].intercalate (ps.map fun p => p.1 ++ c :: p.2) ++ [d] = recordText c d ps := by
  induction ps with
  | nil => exact absurd rfl hps
  | cons p ps ih =>
    rw [recordText_cons]
    cases ps with
    | nil => simp [recordText]
    | cons q ps =>
      rw [List.map_cons, List.intercalate_cons_of_ne_nil (by simp), ← ih (List.cons_ne_nil q ps)]
      simp

end CppExperiment
