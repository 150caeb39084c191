/-
  Texts without runs of one letter.

  `squeeze c a s` is what a pass over `s` keeps that drops a letter `c` behind
  a letter `c`, where `a` stands in front of `s`.  `trim_squeeze`: without the
  letters `c` at its ends, this is the pieces of `s` that are not empty
  (`fullPieces c s`), with one `c` between them.
-/
import CppExperiment.Lib.Split
import CppExperiment.Lib.Trim

namespace CppExperiment

variable {α : Type*} [DecidableEq α] {a b c : α} {s u : List α} {v : List (List α)}

/-! ## Pieces that are not empty -/

/-- The pieces of a text that are not empty. -/
def fullPieces (c : α) (s : List α) : List (List α) := (s.splitOn c).filter (!·.isEmpty)

theorem fullPieces_of_notMem (h : c ∉ s) : fullPieces c s = if s = [] then [] else [s] := by
  rw [fullPieces, List.splitOn_eq_singleton h]
  cases s <;> rfl

theorem fullPieces_append_cons (h : c ∉ u) (s : List α) :
    fullPieces c (u ++ c :: s) = if u = [] then fullPieces c s else u :: fullPieces c s := by
  rw [fullPieces, List.splitOn_append_cons_self_of_not_mem h]
  cases u <;> rfl

/-- An empty last piece does not count. -/
theorem filter_pieces (c : α) (s : List α) : (pieces c s).filter (!·.isEmpty) = fullPieces c s := by
  rw [pieces, fullPieces]
  split_ifs with hlast
  · conv_rhs => rw [← List.dropLast_append_getLast? _ hlast]
    simp
  · rfl

theorem notMem_of_mem_fullPieces {p : List α} (hp : p ∈ fullPieces c s) : c ∉ p :=
  notMem_of_mem_splitOn (List.mem_of_mem_filter hp)

theorem ne_nil_of_mem_fullPieces {p : List α} (hp : p ∈ fullPieces c s) : p ≠ [] := by
  have hne := List.of_mem_filter hp
  rintro rfl
  cases hne

omit [DecidableEq α] in
theorem head?_intercalate (hc : ∀ p ∈ v, c ∉ p) (hne : ∀ p ∈ v, p ≠ []) :
    ([c].intercalate v).head? ≠ some c := by
  cases v with
  | nil => intro h; cases h
  | cons p v =>
    obtain ⟨d, p, rfl⟩ := List.exists_cons_of_ne_nil (hne p List.mem_cons_self)
    have hd : d ≠ c := fun hdc => hc _ List.mem_cons_self (hdc ▸ List.mem_cons_self)
    cases v with
    | nil => simpa using hd
    | cons q v => simpa [List.intercalate_cons_cons] using hd

omit [DecidableEq α] in
theorem intercalate_eq_nil (hne : ∀ p ∈ v, p ≠ []) : [c].intercalate v = [] ↔ v = [] := by
  constructor
  · intro h
    cases v with
    | nil => rfl
    | cons p v =>
      have hp := hne p List.mem_cons_self
      cases v with
      | nil => exact absurd (by simpa using h) hp
      | cons q v => simp [List.intercalate_cons_cons] at h
  · rintro rfl
    rfl

omit [DecidableEq α] in
theorem getLast?_intercalate (hc : ∀ p ∈ v, c ∉ p) (hne : ∀ p ∈ v, p ≠ []) :
    ([c].intercalate v).getLast? ≠ some c := by
  induction v with
  | nil => intro h; cases h
  | cons p v ih =>
    rw [List.forall_mem_cons] at hc hne
    by_cases hv : v = []
    · rw [hv, List.intercalate_singleton]
      exact fun h => hc.1 (List.mem_of_getLast? h)
    · rw [List.intercalate_cons_of_ne_nil hv,
        List.getLast?_append_of_ne_nil _ (mt (intercalate_eq_nil hne.2).1 hv)]
      exact ih hc.2 hne.2

/-- The letters of the pieces are the other letters of the text. -/
theorem filter_intercalate (hc : ∀ p ∈ v, c ∉ p) :
    ([c].intercalate v).filter (· ≠ c) = v.flatten := by
  have hp : ∀ p ∈ v, p.filter (· ≠ c) = p := fun p hp =>
    List.filter_eq_self.2 fun d hd => decide_eq_true fun hdc => hc p hp (hdc ▸ hd)
  induction v with
  | nil => rfl
  | cons p v ih =>
    rw [List.forall_mem_cons] at hc hp
    by_cases hv : v = []
    · rw [hv, List.intercalate_singleton, hp.1, List.flatten_singleton]
    · rw [List.intercalate_cons_of_ne_nil hv, List.filter_append, List.filter_append, hp.1,
        ih hc.2 hp.2, List.flatten_cons]
      simp

theorem filter_fullPieces (c : α) (s : List α) :
    ([c].intercalate (fullPieces c s)).filter (· ≠ c) = s.filter (· ≠ c) := by
  rw [filter_intercalate fun p => notMem_of_mem_fullPieces, fullPieces,
    List.flatten_filter_not_isEmpty, ← filter_intercalate fun p => notMem_of_mem_splitOn,
    List.intercalate_splitOn]

/-- Texts that are not empty and without the letter are the pieces of what they
    are joined to. -/
theorem fullPieces_join (hc : ∀ p ∈ v, c ∉ p) (hne : ∀ p ∈ v, p ≠ []) :
    fullPieces c ([c].intercalate v) = v := by
  have hlast : v.getLast? ≠ some [] := fun h => hne [] (List.mem_of_getLast? h) rfl
  rw [← filter_pieces, pieces_intercalate hc hlast, List.filter_eq_self]
  intro p hp
  simpa using hne p hp

/-- The pieces of what the pieces are joined to. -/
theorem fullPieces_intercalate (c : α) (s : List α) :
    fullPieces c ([c].intercalate (fullPieces c s)) = fullPieces c s :=
  fullPieces_join (fun _ => notMem_of_mem_fullPieces) fun _ => ne_nil_of_mem_fullPieces

/-- A final letter changes nothing. -/
theorem fullPieces_concat (c : α) (s : List α) : fullPieces c (s ++ [c]) = fullPieces c s := by
  induction s using split_induction (c := c) with
  | last s hs =>
    rw [fullPieces_append_cons hs, fullPieces_of_notMem hs, fullPieces_of_notMem List.not_mem_nil]
    rfl
  | step u s hu ih =>
    rw [List.append_assoc, List.cons_append, fullPieces_append_cons hu, fullPieces_append_cons hu,
      ih]

/-! ## One letter for a run -/

/-- Two letters of a text that may stand side by side. -/
def NotBoth (c a b : α) : Prop := ¬ (a = c ∧ b = c)

instance : DecidableRel (NotBoth c) := fun _ _ => inferInstanceAs (Decidable (¬ _))

/-- The text without a letter `c` behind a letter `c`; `a` stands in front. -/
def squeeze (c a : α) (s : List α) : List α := (s.destutter' (NotBoth c) a).tail

theorem cons_squeeze (c a : α) (s : List α) :
    a :: squeeze c a s = s.destutter' (NotBoth c) a := by
  induction s generalizing a with
  | nil => rfl
  | cons b s ih =>
    rw [squeeze]
    by_cases h : NotBoth c a b
    · rw [List.destutter'_cons_pos s h, List.tail_cons]
    · rw [List.destutter'_cons_neg s h, ← ih, List.tail_cons]

theorem squeeze_cons (c a b : α) (s : List α) :
    squeeze c a (b :: s) = if a = c ∧ b = c then squeeze c a s else b :: squeeze c b s := by
  rw [cons_squeeze, squeeze, squeeze]
  split_ifs with h
  · rw [List.destutter'_cons_neg s (not_not.2 h)]
  · rw [List.destutter'_cons_pos s h, List.tail_cons]

/-- A text without the letter stays. -/
theorem squeeze_append (a : α) (hu : c ∉ u) (s : List α) (hne : u ≠ []) :
    squeeze c a (u ++ s) = u ++ squeeze c (u.getLast hne) s := by
  induction u generalizing a with
  | nil => exact absurd rfl hne
  | cons b u ih =>
    rw [List.mem_cons, not_or] at hu
    rw [List.cons_append, squeeze_cons, if_neg fun h => hu.1 h.2.symm]
    by_cases hn : u = []
    · subst hn; rfl
    · rw [ih b hu.2 hn, List.getLast_cons hn, List.cons_append]

/-- What is kept behind a letter `c`: the joined pieces, and maybe one more `c`. -/
theorem exists_squeeze (c : α) (s : List α) :
    ∃ k, squeeze c c s = [c].intercalate (fullPieces c s) ++ List.replicate k c := by
  induction s using split_induction (c := c) with
  | last s hs =>
    refine ⟨0, ?_⟩
    rw [fullPieces_of_notMem hs, List.replicate_zero, List.append_nil]
    split_ifs with h
    · subst h; rfl
    · have hkeep := squeeze_append c hs [] h
      rw [List.append_nil] at hkeep
      rw [hkeep, List.intercalate_singleton]
      exact List.append_nil s
  | step u s hu ih =>
    obtain ⟨k, hk⟩ := ih
    rw [fullPieces_append_cons hu]
    by_cases hne : u = []
    · -- one more letter, which is dropped
      subst hne
      rw [if_pos rfl, List.nil_append, squeeze_cons, if_pos ⟨rfl, rfl⟩]
      exact ⟨k, hk⟩
    · have hlast : u.getLast hne ≠ c := fun h => hu (h ▸ List.getLast_mem hne)
      rw [if_neg hne, squeeze_append c hu _ hne, squeeze_cons, if_neg fun h => hlast h.1, hk]
      by_cases hw : fullPieces c s = []
      · refine ⟨k + 1, ?_⟩
        rw [hw, List.intercalate_singleton, List.replicate_succ]
        rfl
      · refine ⟨k, ?_⟩
        rw [List.intercalate_cons_of_ne_nil hw]
        simp

/-- What stands in front matters for one letter only. -/
theorem trim_squeeze_front (a : α) (s : List α) :
    trim c (squeeze c a s) = trim c (squeeze c c s) := by
  by_cases ha : a = c
  · rw [ha]
  · cases s with
    | nil => rfl
    | cons b s =>
      rw [squeeze_cons, squeeze_cons, if_neg fun h => ha h.1]
      by_cases hb : b = c
      · subst hb
        rw [if_pos ⟨rfl, rfl⟩]
        exact trim_front 1 _
      · rw [if_neg fun h => hb h.2]

/-- **One letter for a run, and none at the ends**: the pieces that are not
    empty, with one letter between them. -/
theorem trim_squeeze (c a : α) (s : List α) :
    trim c (squeeze c a s) = [c].intercalate (fullPieces c s) := by
  have hc : ∀ p ∈ fullPieces c s, c ∉ p := fun p => notMem_of_mem_fullPieces
  have hne : ∀ p ∈ fullPieces c s, p ≠ [] := fun p => ne_nil_of_mem_fullPieces
  obtain ⟨k, hk⟩ := exists_squeeze c s
  rw [trim_squeeze_front, hk, trim_back]
  exact trim_eq_self (head?_intercalate hc hne) (getLast?_intercalate hc hne)

/-- No two letters `c` stand side by side. -/
theorem not_infix_fullPieces (c : α) (s : List α) :
    ¬ [c, c] <:+: [c].intercalate (fullPieces c s) := by
  obtain ⟨k, hk⟩ := exists_squeeze c s
  rintro ⟨u, v, huv⟩
  have hchain := List.isChain_destutter' (NotBoth c) s c
  rw [← cons_squeeze, hk, ← huv] at hchain
  have hcc : [c, c].IsChain (NotBoth c) :=
    hchain.tail.left_of_append.left_of_append.right_of_append
  exact List.isChain_pair.1 hcc ⟨rfl, rfl⟩

end CppExperiment
