/-
  Splitting a text at a separator.

  `pieces c s` are the pieces of `s` between the separators `c`; an empty piece
  behind the last separator does not count.  With this rule, splitting and
  joining are inverse up to a final separator (`intercalate_pieces`,
  `pieces_intercalate`).

  `Leads c j p`: `p` is made of `j` fields, each with its separator.  The
  lemmas `intercalate_set_…` say what a text becomes when one of its fields is
  replaced.

  `split_induction` is induction along the first separator of the rest of the
  text, the way in which a program walks from one separator to the next.
-/
import Mathlib

namespace CppExperiment

variable {α : Type*}

/-- **Induction along the separators**: a text without a separator, and a text
    with a first separator. -/
theorem split_induction {c : α} {P : List α → Prop} (last : ∀ s, c ∉ s → P s)
    (step : ∀ u s, c ∉ u → P s → P (u ++ c :: s)) (s : List α) : P s := by
  induction hn : s.length using Nat.strong_induction_on generalizing s with
  | _ n ih =>
    by_cases hc : c ∈ s
    · obtain ⟨u, t, rfl, hu⟩ := List.eq_append_cons_of_mem hc
      refine step u t hu (ih t.length ?_ t rfl)
      rw [← hn, List.length_append, List.length_cons]
      omega
    · exact last s hc

/-- What stands behind a separator. -/
theorem drop_behind {c : α} {s u r : List α} {pos : ℕ} (h : s.drop pos = u ++ c :: r) :
    s.drop (pos + u.length + 1) = r := by
  rw [Nat.add_assoc, ← List.drop_drop, h, ← List.drop_drop, List.drop_left]
  rfl

theorem le_behind {c : α} {s u r : List α} {pos : ℕ} (h : s.drop pos = u ++ c :: r) :
    pos + u.length + 1 ≤ s.length := by
  have hlen := congrArg List.length h
  rw [List.length_drop, List.length_append, List.length_cons] at hlen
  omega

variable [DecidableEq α] {c : α} {s u : List α} {v : List (List α)}

/-- The pieces of a text, without an empty one at its end. -/
def pieces (c : α) (s : List α) : List (List α) :=
  if (s.splitOn c).getLast? = some [] then (s.splitOn c).dropLast else s.splitOn c

theorem pieces_of_notMem (h : c ∉ s) : pieces c s = if s = [] then [] else [s] := by
  rw [pieces, List.splitOn_eq_singleton h]
  by_cases hs : s = [] <;> simp [hs]

/-- The first piece ends at the first separator. -/
theorem pieces_append_cons (h : c ∉ u) (s : List α) : pieces c (u ++ c :: s) = u :: pieces c s := by
  have hne := List.splitOn_ne_nil c s
  rw [pieces, pieces, List.splitOn_append_cons_self_of_not_mem h,
    List.getLast?_cons_of_ne_nil hne, List.dropLast_cons_of_ne_nil hne]
  split_ifs <;> rfl

theorem pieces_eq_nil : pieces c s = [] ↔ s = [] := by
  constructor
  · intro h
    by_cases hc : c ∈ s
    · obtain ⟨u, t, rfl, hu⟩ := List.eq_append_cons_of_mem hc
      rw [pieces_append_cons hu] at h
      cases h
    · rw [pieces_of_notMem hc] at h
      split_ifs at h with hs
      exact hs
  · rintro rfl
    rw [pieces_of_notMem List.not_mem_nil, if_pos rfl]

/-- **Joining the pieces** gives the text back, without its final separator. -/
theorem intercalate_pieces (c : α) (s : List α) :
    [c].intercalate (pieces c s) = if s.getLast? = some c then s.dropLast else s := by
  induction s using split_induction (c := c) with
  | last s hs =>
    have hlast : s.getLast? ≠ some c := fun h => hs (List.mem_of_getLast? h)
    rw [pieces_of_notMem hs, if_neg hlast]
    split_ifs with h
    · rw [h]; rfl
    · exact List.intercalate_singleton
  | step u s hu ih =>
    rw [pieces_append_cons hu]
    by_cases hs : s = []
    · subst hs
      rw [pieces_eq_nil.2 rfl, List.intercalate_singleton, List.getLast?_concat, if_pos rfl,
        List.dropLast_concat]
    · have hlast : (u ++ c :: s).getLast? = s.getLast? := by
        rw [List.getLast?_append_cons, List.getLast?_cons_of_ne_nil hs]
      rw [List.intercalate_cons_of_ne_nil (mt pieces_eq_nil.1 hs), List.append_assoc,
        List.singleton_append, ih, hlast]
      split_ifs
      · rw [List.dropLast_append_cons, List.dropLast_cons_of_ne_nil hs]
      · rfl

/-- **Joining the pieces with another letter** puts it in the places of the
    separators. -/
theorem intercalate_pieces_map (c d : α) (s : List α) :
    [d].intercalate (pieces c s) =
      (if s.getLast? = some c then s.dropLast else s).map fun x => if x = c then d else x := by
  have hmap {u : List α} (hu : c ∉ u) : u.map (fun x => if x = c then d else x) = u := by
    refine (List.map_congr_left fun x hx => if_neg ?_).trans (List.map_id u)
    rintro rfl
    exact hu hx
  induction s using split_induction (c := c) with
  | last s hs =>
    have hlast : s.getLast? ≠ some c := fun h => hs (List.mem_of_getLast? h)
    rw [pieces_of_notMem hs, if_neg hlast, hmap hs]
    split_ifs with h
    · rw [h]; rfl
    · exact List.intercalate_singleton
  | step u s hu ih =>
    rw [pieces_append_cons hu]
    by_cases hs : s = []
    · subst hs
      rw [pieces_eq_nil.2 rfl, List.intercalate_singleton, List.getLast?_concat, if_pos rfl,
        List.dropLast_concat, hmap hu]
    · have hlast : (u ++ c :: s).getLast? = s.getLast? := by
        rw [List.getLast?_append_cons, List.getLast?_cons_of_ne_nil hs]
      rw [List.intercalate_cons_of_ne_nil (mt pieces_eq_nil.1 hs), List.append_assoc,
        List.singleton_append, ih, hlast]
      split_ifs
      · rw [List.dropLast_append_cons, List.dropLast_cons_of_ne_nil hs, List.map_append, hmap hu,
          List.map_cons, if_pos rfl]
      · rw [List.map_append, hmap hu, List.map_cons, if_pos rfl]

theorem filter_ne_self (h : c ∉ s) : s.filter (· ≠ c) = s := by
  rw [List.filter_eq_self]
  intro x hx
  rw [decide_eq_true_eq]
  rintro rfl
  exact h hx

/-- **The pieces one behind the other** are the text without its separators. -/
theorem flatten_pieces (c : α) (s : List α) : (pieces c s).flatten = s.filter (· ≠ c) := by
  induction s using split_induction (c := c) with
  | last s hs =>
    rw [pieces_of_notMem hs, filter_ne_self hs]
    split_ifs with h
    · rw [h]; rfl
    · exact List.flatten_singleton
  | step u s hu ih =>
    rw [pieces_append_cons hu, List.flatten_cons, ih, List.filter_append,
      filter_ne_self hu, List.filter_cons_of_neg (by simp)]

/-- **The pieces of a joined list.** -/
theorem pieces_intercalate (hc : ∀ p ∈ v, c ∉ p) (hlast : v.getLast? ≠ some []) :
    pieces c ([c].intercalate v) = v := by
  by_cases hv : v = []
  · subst hv
    exact pieces_eq_nil.2 rfl
  · rw [pieces, List.splitOn_intercalate c hc hv, if_neg hlast]

/-- The last piece is empty if the text ends with a separator, or is empty. -/
theorem getLast?_splitOn (c : α) (s : List α) :
    (s.splitOn c).getLast? = some [] ↔ s = [] ∨ s.getLast? = some c := by
  induction s using split_induction (c := c) with
  | last s hs =>
    have hlast : s.getLast? ≠ some c := fun h => hs (List.mem_of_getLast? h)
    rw [List.splitOn_eq_singleton hs, List.getLast?_singleton, Option.some_inj]
    simp [hlast]
  | step u s hu ih =>
    rw [List.splitOn_append_cons_self_of_not_mem hu,
      List.getLast?_cons_of_ne_nil (List.splitOn_ne_nil c s), ih, List.getLast?_append_cons]
    cases s with
    | nil => simp
    | cons d s => simp [List.getLast?_cons_cons]

/-! ## The fields by their index -/

/-- A list without an empty last text. -/
def dropEmptyLast (v : List (List α)) : List (List α) :=
  if v.getLast? = some [] then v.dropLast else v

theorem dropEmptyLast_singleton (s : List α) :
    dropEmptyLast [s] = if s = [] then [] else [s] := by
  rw [dropEmptyLast, List.getLast?_singleton, List.dropLast_singleton]
  by_cases hs : s = [] <;> simp [hs]

theorem dropEmptyLast_cons (hv : v ≠ []) (s : List α) :
    dropEmptyLast (s :: v) = s :: dropEmptyLast v := by
  rw [dropEmptyLast, dropEmptyLast, List.getLast?_cons_of_ne_nil hv,
    List.dropLast_cons_of_ne_nil hv]
  split_ifs <;> rfl

theorem dropEmptyLast_splitOn (c : α) (s : List α) : dropEmptyLast (s.splitOn c) = pieces c s := rfl

/-- A piece has no separator. -/
theorem notMem_of_mem_splitOn {p : List α} (hp : p ∈ s.splitOn c) : c ∉ p := by
  induction s using split_induction (c := c) with
  | last s hs =>
    rw [List.splitOn_eq_singleton hs, List.mem_singleton] at hp
    rwa [hp]
  | step u s hu ih =>
    rw [List.splitOn_append_cons_self_of_not_mem hu, List.mem_cons] at hp
    rcases hp with rfl | hp
    · exact hu
    · exact ih hp

/-- An index behind the end counts as an empty text. -/
theorem getD_dropEmptyLast (v : List (List α)) (k : ℕ) :
    (dropEmptyLast v)[k]?.getD [] = v[k]?.getD [] := by
  induction v generalizing k with
  | nil => rfl
  | cons s v ih =>
    by_cases hv : v = []
    · subst hv
      rw [dropEmptyLast_singleton]
      split_ifs with hs
      · subst hs
        cases k <;> rfl
      · rfl
    · rw [dropEmptyLast_cons hv]
      cases k with
      | zero => rfl
      | succ k => exact ih k

/-- The text between two separators; it is empty behind the last one. -/
def fieldAt (c : α) (k : ℕ) (s : List α) : List α := (s.splitOn c)[k]?.getD []

theorem fieldAt_pieces (c : α) (k : ℕ) (s : List α) : (pieces c s)[k]?.getD [] = fieldAt c k s :=
  getD_dropEmptyLast _ k

theorem fieldAt_last (h : c ∉ s) (k : ℕ) : fieldAt c k s = if k = 0 then s else [] := by
  rw [fieldAt, List.splitOn_eq_singleton h]
  cases k <;> rfl

theorem fieldAt_append_cons (h : c ∉ u) (k : ℕ) (s : List α) :
    fieldAt c k (u ++ c :: s) = if k = 0 then u else fieldAt c (k - 1) s := by
  rw [fieldAt, List.splitOn_append_cons_self_of_not_mem h]
  cases k <;> rfl

theorem notMem_fieldAt (c : α) (k : ℕ) (s : List α) : c ∉ fieldAt c k s := by
  unfold fieldAt
  cases h : (s.splitOn c)[k]? with
  | none => exact List.not_mem_nil
  | some u => exact notMem_of_mem_splitOn (List.mem_of_getElem? h)

theorem fieldAt_sublist (c : α) (k : ℕ) (s : List α) : (fieldAt c k s).Sublist s := by
  induction s using split_induction (c := c) generalizing k with
  | last s hs =>
    rw [fieldAt_last hs]
    split_ifs
    · exact List.Sublist.refl s
    · exact List.nil_sublist s
  | step u s hu ih =>
    rw [fieldAt_append_cons hu]
    split_ifs
    · exact List.sublist_append_left u _
    · exact (ih _).trans ((List.sublist_cons_self c s).trans (List.sublist_append_right u _))

theorem takeWhile_last (h : c ∉ s) : s.takeWhile (· ≠ c) = s := by
  rw [List.takeWhile_eq_self_iff]
  intro d hd
  exact decide_eq_true fun hdc => h (hdc ▸ hd)

theorem takeWhile_append_cons (h : c ∉ u) (s : List α) :
    (u ++ c :: s).takeWhile (· ≠ c) = u := by
  rw [List.takeWhile_append_of_pos, List.takeWhile_cons_of_neg (by simp), List.append_nil]
  intro d hd
  exact decide_eq_true fun hdc => h (hdc ▸ hd)

/-! ## One field -/

/-- The text is made of `j` fields, each with its separator. -/
inductive Leads (c : α) : ℕ → List α → Prop where
  | nil : Leads c 0 []
  | cons {j : ℕ} {u p : List α} : c ∉ u → Leads c j p → Leads c (j + 1) (u ++ c :: p)

variable {j : ℕ} {p r x : List α}

/-- The first fields of a text. -/
theorem exists_leads (h : j ≤ s.count c) : ∃ p r, s = p ++ r ∧ Leads c j p := by
  induction j generalizing s with
  | zero => exact ⟨[], s, rfl, .nil⟩
  | succ j ih =>
    obtain ⟨u, t, rfl, hu⟩ :=
      List.eq_append_cons_of_mem (List.count_pos_iff.1 (Nat.zero_lt_of_lt h))
    rw [List.count_append, List.count_eq_zero.2 hu, List.count_cons_self] at h
    obtain ⟨p, r, rfl, hp⟩ := ih (s := t) (by omega)
    exact ⟨u ++ c :: p, r, by simp, .cons hu hp⟩

theorem Leads.count_le (h : Leads c j p) (r : List α) : j ≤ (p ++ r).count c := by
  induction h with
  | nil => exact Nat.zero_le _
  | cons _ _ ih =>
    rw [List.append_assoc, List.cons_append, List.count_append, List.count_cons_self]
    omega

/-- The fields in front of the one that is replaced stay. -/
theorem Leads.intercalate_set (h : Leads c j p) (r x : List α) :
    [c].intercalate (((p ++ r).splitOn c).set j x) =
      p ++ [c].intercalate ((r.splitOn c).set 0 x) := by
  induction h with
  | nil => rfl
  | @cons j u p hu _ ih =>
    have hne : ((p ++ r).splitOn c).set j x ≠ [] := by
      rw [Ne, List.set_eq_nil_iff]
      exact List.splitOn_ne_nil c _
    rw [List.append_assoc, List.cons_append, List.splitOn_append_cons_self_of_not_mem hu,
      List.set_cons_succ, List.intercalate_cons_of_ne_nil hne, ih]
    simp

/-- The field that is replaced, and what stands behind it. -/
theorem intercalate_set_zero (hu : c ∉ u) (r x : List α) :
    [c].intercalate (((u ++ c :: r).splitOn c).set 0 x) = x ++ c :: r := by
  rw [List.splitOn_append_cons_self_of_not_mem hu, List.set_cons_zero,
    List.intercalate_cons_of_ne_nil (List.splitOn_ne_nil c r), List.intercalate_splitOn]
  simp

/-- The last field is replaced. -/
theorem intercalate_set_last (hr : c ∉ r) (x : List α) :
    [c].intercalate ((r.splitOn c).set 0 x) = x := by
  rw [List.splitOn_eq_singleton hr, List.set_cons_zero, List.intercalate_singleton]

theorem length_splitOn (c : α) (s : List α) : (s.splitOn c).length = s.count c + 1 := by
  induction s using split_induction (c := c) with
  | last s hs => rw [List.splitOn_eq_singleton hs, List.count_eq_zero.2 hs, List.length_singleton]
  | step u s hu ih =>
    rw [List.splitOn_append_cons_self_of_not_mem hu, List.length_cons, ih, List.count_append,
      List.count_eq_zero.2 hu, List.count_cons_self, Nat.zero_add]

/-- There is no such field. -/
theorem intercalate_set_over (h : s.count c < j) (x : List α) :
    [c].intercalate ((s.splitOn c).set j x) = s := by
  rw [List.set_eq_of_length_le (by rw [length_splitOn]; omega), List.intercalate_splitOn]

end CppExperiment
