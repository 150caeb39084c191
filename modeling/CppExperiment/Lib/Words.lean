/-
  Texts of words whose first letter tells their length.

  * `Words width ws`: every one of `ws` is such a word.
  * `exists_words`: a text consists of words and, maybe, the start of one more
    (`CutShort`).
-/
import CppExperiment.Lib.Fit

namespace CppExperiment

variable {α : Type*} (width : α → ℕ)

/-- A word. -/
def IsWord : List α → Prop
  | [] => False
  | c :: t => t.length + 1 = width c

/-- A list of words. -/
def Words (ws : List (List α)) : Prop := ∀ w ∈ ws, IsWord width w

/-- The start of a word that is longer. -/
def CutShort : List α → Prop
  | [] => False
  | c :: t => t.length + 1 < width c

variable {width} {w s : List α} {ws ws' : List (List α)} {n : ℕ}

theorem IsWord.exists_cons (h : IsWord width w) : ∃ c t, w = c :: t ∧ w.length = width c := by
  cases w with
  | nil => exact h.elim
  | cons c t => exact ⟨c, t, rfl, h⟩

theorem words_nil : Words width [] := fun _ h => absurd h List.not_mem_nil

theorem words_cons : Words width (w :: ws) ↔ IsWord width w ∧ Words width ws := List.forall_mem_cons

theorem words_append : Words width (ws ++ ws') ↔ Words width ws ∧ Words width ws' :=
  List.forall_mem_append

/-- Words are not empty. -/
theorem Words.length_le (h : Words width ws) : ws.length ≤ ws.flatten.length := by
  induction ws with
  | nil => exact le_rfl
  | cons w ws ih =>
    obtain ⟨hw, hws⟩ := words_cons.1 h
    obtain ⟨c, t, rfl, -⟩ := hw.exists_cons
    have := ih hws
    rw [List.flatten_cons, List.length_append, List.length_cons, List.length_cons]
    omega

theorem length_flatten (ws : List (List α)) : ws.flatten.length = room List.length ws :=
  List.length_flatten

/-- **A text is read word by word**, up to one that is cut short. -/
theorem exists_words (hpos : ∀ c, 0 < width c) (s : List α) :
    ∃ ws tail, s = ws.flatten ++ tail ∧ Words width ws ∧ (tail = [] ∨ CutShort width tail) := by
  induction hn : s.length using Nat.strong_induction_on generalizing s with
  | h n ih =>
    cases s with
    | nil => exact ⟨[], [], rfl, words_nil, .inl rfl⟩
    | cons c t =>
      have hc := hpos c
      by_cases hcut : t.length + 1 < width c
      · exact ⟨[], c :: t, rfl, words_nil, .inr hcut⟩
      · have hlt : (t.drop (width c - 1)).length < n := by
          rw [← hn, List.length_drop, List.length_cons]
          omega
        obtain ⟨ws, tail, hs, hws, htail⟩ := ih _ hlt _ rfl
        have hword : IsWord width (c :: t.take (width c - 1)) := by
          rw [IsWord, List.length_take]
          omega
        refine ⟨(c :: t.take (width c - 1)) :: ws, tail, ?_, words_cons.2 ⟨hword, hws⟩, htail⟩
        rw [List.flatten_cons, List.append_assoc, ← hs, List.cons_append, List.take_append_drop]

/-- **The words at the start of a text** are the words that it consists of. -/
theorem Words.prefix_of_flatten_prefix {tail : List α} (hws' : Words width ws')
    (hws : Words width ws) (htail : tail = [] ∨ CutShort width tail)
    (h : ws'.flatten <+: ws.flatten ++ tail) : ws' <+: ws := by
  induction ws' generalizing ws with
  | nil => exact List.nil_prefix
  | cons w' ws' ih =>
    obtain ⟨hw', hrest'⟩ := words_cons.1 hws'
    obtain ⟨c, t', rfl, hsize'⟩ := hw'.exists_cons
    rw [List.flatten_cons] at h
    cases ws with
    | nil =>
      -- no whole word stands in what is cut short
      have hle := h.length_le
      rw [List.flatten_nil, List.nil_append] at h hle
      rw [List.length_append] at hle
      cases tail with
      | nil => cases List.prefix_nil.1 h
      | cons d r =>
        obtain ⟨rfl, -⟩ := List.cons_prefix_cons.1 h
        have hcut : (c :: r).length < width c := htail.resolve_left (List.cons_ne_nil c r)
        omega
    | cons w ws =>
      obtain ⟨hw, hrest⟩ := words_cons.1 hws
      obtain ⟨d, t, rfl, hsize⟩ := hw.exists_cons
      rw [List.flatten_cons, List.append_assoc] at h
      obtain ⟨rfl, -⟩ := List.cons_prefix_cons.1 h
      have heq : c :: t' = c :: t :=
        (List.prefix_of_prefix_length_le ((List.prefix_append _ _).trans h)
          (List.prefix_append _ _) (hsize'.trans hsize.symm).le).eq_of_length
          (hsize'.trans hsize.symm)
      rw [heq] at h ⊢
      rw [List.prefix_append_right_inj] at h
      exact List.cons_prefix_cons.2 ⟨rfl, ih hrest' hrest h⟩

end CppExperiment
