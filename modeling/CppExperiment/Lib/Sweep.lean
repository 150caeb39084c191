/-
  Removing elements from a list by swapping with the last one.

  `sweep keep xs` walks through `xs`; an element that is not kept is replaced
  by the last element, which is then examined in its place.  The kept elements
  all survive (`sweep_perm`), but their order is the original one only if at
  most one kept element lies behind the first dropped one
  (`sweep_pairwise_iff`).

  `sweepMeet keep xs` is the walk of two indices that stops when they meet, the
  element there not being examined: `sweepMeet_perm_iff` says from which lists
  the kept elements are left all the same, and `sweepMeet_perm_cons` what is left
  from the others.
-/
import Mathlib

namespace CppExperiment

variable {α : Type*}

/-- The last element moves to the front; what the swap leaves behind a dropped
    element. -/
def rotateLast (xs : List α) : List α :=
  match xs.getLast? with
  | none => []
  | some b => b :: xs.dropLast

theorem rotateLast_append (xs : List α) (b : α) : rotateLast (xs ++ [b]) = b :: xs := by
  simp [rotateLast]

theorem rotateLast_perm (xs : List α) : (rotateLast xs).Perm xs := by
  rcases List.eq_nil_or_concat xs with rfl | ⟨ys, b, rfl⟩
  · exact .refl _
  · rw [List.concat_eq_append, rotateLast_append]
    exact (List.perm_append_singleton b ys).symm

@[simp] theorem length_rotateLast (xs : List α) : (rotateLast xs).length = xs.length :=
  (rotateLast_perm xs).length_eq

/-- Walk through the list; a dropped element is replaced by the last one. -/
def sweep (keep : α → Bool) : List α → List α
  | [] => []
  | x :: xs => if keep x then x :: sweep keep xs else sweep keep (rotateLast xs)
termination_by xs => xs.length

variable {keep : α → Bool}

@[simp] theorem sweep_nil : sweep keep [] = [] := by rw [sweep]

theorem sweep_keep {x : α} (xs : List α) (h : keep x = true) :
    sweep keep (x :: xs) = x :: sweep keep xs := by rw [sweep, if_pos h]

theorem sweep_drop {x : α} (xs : List α) (h : keep x = false) :
    sweep keep (x :: xs) = sweep keep (rotateLast xs) := by rw [sweep, if_neg (by simp [h])]

/-- **The kept elements survive, each once.** -/
theorem sweep_perm (keep : α → Bool) (xs : List α) : (sweep keep xs).Perm (xs.filter keep) := by
  induction xs using sweep.induct keep with
  | case1 => simp
  | case2 x xs h ih => rw [sweep_keep xs h, List.filter_cons_of_pos h]; exact ih.cons x
  | case3 x xs h ih =>
    rw [sweep_drop xs (by simpa using h), List.filter_cons_of_neg h]
    exact ih.trans ((rotateLast_perm xs).filter keep)

theorem sweep_append {pre : List α} (xs : List α) (h : ∀ x ∈ pre, keep x = true) :
    sweep keep (pre ++ xs) = pre ++ sweep keep xs := by
  induction pre with
  | nil => rfl
  | cons p pre ih =>
    rw [List.cons_append, sweep_keep _ (h p (by simp)), ih fun x hx => h x (by simp [hx])]; rfl

/-- A dropped element's place is taken by the last kept element behind it. -/
theorem head_sweep_rotateLast (keep : α → Bool) (xs : List α) :
    (sweep keep (rotateLast xs)).head? = (xs.filter keep).getLast? := by
  induction xs using List.reverseRecOn with
  | nil => simp [rotateLast]
  | append_singleton xs b ih =>
    rw [rotateLast_append, List.filter_append]
    by_cases hb : keep b = true
    · simp [sweep_keep, hb]
    · simp [sweep_drop, hb, ih]

/-- The elements from the first dropped one on. -/
def fromDropped (keep : α → Bool) (xs : List α) : List α := xs.dropWhile keep

/-- At most one kept element lies behind the first dropped one. -/
def OrderSafe (keep : α → Bool) (xs : List α) : Prop :=
  ((fromDropped keep xs).filter keep).length ≤ 1

instance (keep : α → Bool) (xs : List α) : Decidable (OrderSafe keep xs) :=
  inferInstanceAs (Decidable (_ ≤ _))

theorem sweep_fromDropped (xs : List α) :
    sweep keep xs = xs.takeWhile keep ++ sweep keep (fromDropped keep xs) := by
  conv_lhs => rw [← List.takeWhile_append_dropWhile (p := keep) (l := xs)]
  exact sweep_append _ fun x hx => List.mem_takeWhile_imp hx

theorem filter_fromDropped (xs : List α) :
    xs.filter keep = xs.takeWhile keep ++ (fromDropped keep xs).filter keep := by
  conv_lhs => rw [← List.takeWhile_append_dropWhile (p := keep) (l := xs), List.filter_append]
  rw [List.filter_eq_self.2 fun x hx => List.mem_takeWhile_imp hx]; rfl

theorem head_fromDropped {xs ys : List α} {x : α} (h : fromDropped keep xs = x :: ys) :
    keep x = false := by
  unfold fromDropped at h
  have := List.head_dropWhile_not keep (l := xs) (by simp [h])
  simpa [h] using this

/-- If it is safe, the sweep is the filter. -/
theorem sweep_eq_filter {xs : List α} (h : OrderSafe keep xs) : sweep keep xs = xs.filter keep := by
  rw [sweep_fromDropped, filter_fromDropped]
  have hp := sweep_perm keep (fromDropped keep xs)
  unfold OrderSafe at h
  rcases hf : (fromDropped keep xs).filter keep with _ | ⟨x, _ | ⟨y, ys⟩⟩
  · rw [hf] at hp; rw [List.perm_nil.1 hp]
  · rw [hf] at hp; rw [List.perm_singleton.1 hp]
  · rw [hf] at h; simp at h

/-- **The sweep keeps a strict order exactly when it is safe.** -/
theorem sweep_pairwise_iff {r : α → α → Prop} (hasymm : ∀ a b, r a b → ¬ r b a) {xs : List α}
    (h : xs.Pairwise r) : (sweep keep xs).Pairwise r ↔ OrderSafe keep xs := by
  constructor
  · intro hs
    rw [sweep_fromDropped] at hs
    have hs := (List.pairwise_append.1 hs).2.1
    have hf : ((fromDropped keep xs).filter keep).Pairwise r :=
      (h.sublist (List.dropWhile_sublist _)).filter _
    by_contra hlen
    rcases hd : fromDropped keep xs with _ | ⟨x, ys⟩
    · simp [OrderSafe, hd] at hlen
    have hx := head_fromDropped hd
    rw [hd, sweep_drop ys hx] at hs
    rw [OrderSafe, hd, List.filter_cons_of_neg (by simp [hx])] at hlen
    rw [hd, List.filter_cons_of_neg (by simp [hx])] at hf
    have hhead := head_sweep_rotateLast keep ys
    have hp := (sweep_perm keep (rotateLast ys)).trans ((rotateLast_perm ys).filter keep)
    rcases hk : ys.filter keep with _ | ⟨a, zs⟩
    · simp [hk] at hlen
    rcases List.eq_nil_or_concat zs with rfl | ⟨ws, b, rfl⟩
    · simp [hk] at hlen
    -- the first kept element `a` precedes the last one, `b`, which the sweep moves to the front
    rw [List.concat_eq_append] at hk
    rw [hk] at hf hhead hp
    have hab : r a b := (List.pairwise_cons.1 hf).1 b (by simp)
    rcases hsw : sweep keep (rotateLast ys) with _ | ⟨c, cs⟩
    · rw [hsw] at hp; simpa using hp.length_eq
    have hcb : c = b := by simpa [hsw, List.getLast?_cons] using hhead
    rw [hsw, hcb] at hs hp
    have ha : a ∈ b :: cs := hp.mem_iff.2 (by simp)
    rcases List.mem_cons.1 ha with rfl | ha
    · exact hasymm _ _ hab hab
    · exact hasymm _ _ hab ((List.pairwise_cons.1 hs).1 a ha)
  · intro hsafe
    rw [sweep_eq_filter hsafe]; exact h.filter _

/-! ## The walk that stops where the two ends meet -/

/-- Walk through the list until one element is left, which is not examined. -/
def sweepMeet (keep : α → Bool) : List α → List α
  | [] => []
  | [x] => [x]
  | x :: y :: xs =>
    if keep x then x :: sweepMeet keep (y :: xs) else sweepMeet keep (rotateLast (y :: xs))
termination_by xs => xs.length

@[simp] theorem sweepMeet_singleton (x : α) : sweepMeet keep [x] = [x] := by rw [sweepMeet]

theorem sweepMeet_keep {x : α} (xs : List α) (b : α) (h : keep x = true) :
    sweepMeet keep (x :: (xs ++ [b])) = x :: sweepMeet keep (xs ++ [b]) := by
  cases xs with
  | nil => rw [List.nil_append, sweepMeet.eq_3, if_pos h]
  | cons y ys => rw [List.cons_append, sweepMeet.eq_3, if_pos h]

theorem sweepMeet_drop {x : α} (xs : List α) (b : α) (h : keep x = false) :
    sweepMeet keep (x :: (xs ++ [b])) = sweepMeet keep (b :: xs) := by
  rw [← rotateLast_append xs b]
  cases xs with
  | nil => rw [List.nil_append, sweepMeet.eq_3, if_neg (by simp [h])]
  | cons y ys => rw [List.cons_append, sweepMeet.eq_3, if_neg (by simp [h])]

/-- The element behind as many elements as are kept is kept itself, if there is
    one. -/
def MeetSafe (keep : α → Bool) (xs : List α) : Prop :=
  ∀ x ∈ xs[(xs.filter keep).length]?, keep x = true

/-- A dropped element may make way for the last one. -/
theorem meetSafe_drop {x : α} (xs : List α) (b : α) (h : keep x = false) :
    MeetSafe keep (x :: (xs ++ [b])) ↔ MeetSafe keep (b :: xs) := by
  have hcount : ((xs ++ [b]).filter keep).length = ((b :: xs).filter keep).length :=
    ((List.perm_append_singleton b xs).filter keep).length_eq
  rw [MeetSafe, MeetSafe, List.filter_cons_of_neg (by simp [h]), hcount]
  rcases hk : ((b :: xs).filter keep).length with _ | k
  · -- nothing is kept, so that `x` and `b` are both dropped
    have hb : keep b ≠ true := by
      intro hb
      rw [List.filter_cons_of_pos hb, List.length_cons] at hk
      cases hk
    simp [h, hb]
  · rw [List.getElem?_cons_succ, List.getElem?_cons_succ]
    by_cases hlt : k < xs.length
    · rw [List.getElem?_append_left hlt]
    · -- all of `b` and `xs` is kept
      have hle := List.length_filter_le keep (b :: xs)
      rw [hk, List.length_cons] at hle
      have hend : k = xs.length := by omega
      have hall := List.length_filter_eq_length_iff.1 (hk.trans (congrArg (· + 1) hend))
      subst hend
      simp [hall b (by simp)]

theorem meetSafe_keep {x : α} (xs : List α) (h : keep x = true) :
    MeetSafe keep (x :: xs) ↔ MeetSafe keep xs := by
  rw [MeetSafe, MeetSafe, List.filter_cons_of_pos h, List.length_cons, List.getElem?_cons_succ]

/-- What is left are the kept elements, and the one that is not examined. -/
theorem sweepMeet_eq (keep : α → Bool) {xs : List α} (hne : xs ≠ []) :
    ∃ ys r, sweepMeet keep xs = ys ++ [r] ∧
    (ys ++ [r].filter keep).Perm (xs.filter keep) ∧ (keep r = true ↔ MeetSafe keep xs) := by
  induction hn : xs.length generalizing xs with
  | zero => exact absurd (List.length_eq_zero_iff.1 hn) hne
  | succ n ih =>
    obtain ⟨x, rest, rfl⟩ := List.exists_cons_of_ne_nil hne
    rcases List.eq_nil_or_concat rest with rfl | ⟨zs, b, rfl⟩
    · refine ⟨[], x, by simp, by simp, ?_⟩
      by_cases hx : keep x = true <;> simp [MeetSafe, hx]
    rw [List.concat_eq_append] at hn ⊢
    by_cases hx : keep x = true
    · obtain ⟨ys, r, hys, hperm, hr⟩ := @ih (zs ++ [b]) (by simp) (by simpa using hn)
      refine ⟨x :: ys, r, ?_, ?_, ?_⟩
      · rw [sweepMeet_keep zs b hx, hys]; rfl
      · rw [List.filter_cons_of_pos hx]; exact hperm.cons x
      · rw [hr, meetSafe_keep _ hx]
    · rw [Bool.not_eq_true] at hx
      obtain ⟨ys, r, hys, hperm, hr⟩ := @ih (b :: zs) (by simp) (by simpa using hn)
      refine ⟨ys, r, ?_, ?_, ?_⟩
      · rw [sweepMeet_drop zs b hx, hys]
      · rw [List.filter_cons_of_neg (a := x) (by simp [hx])]
        exact hperm.trans ((List.perm_append_singleton b zs).symm.filter keep)
      · rw [hr, meetSafe_drop zs b hx]

/-- **The kept elements are left exactly from a safe list.** -/
theorem sweepMeet_perm_iff {xs : List α} (hne : xs ≠ []) :
    (sweepMeet keep xs).Perm (xs.filter keep) ↔ MeetSafe keep xs := by
  obtain ⟨ys, r, hys, hperm, hr⟩ := sweepMeet_eq keep hne
  rw [hys, ← hr]
  constructor
  · intro h
    have hlen := (h.trans hperm.symm).length_eq
    by_contra hk
    simp [hk] at hlen
  · intro hk
    rwa [List.filter_cons_of_pos hk] at hperm

theorem sweepMeet_subset (keep : α → Bool) (xs : List α) : sweepMeet keep xs ⊆ xs := by
  induction xs using sweepMeet.induct keep with
  | case1 => rw [sweepMeet]; exact List.Subset.refl _
  | case2 x => rw [sweepMeet_singleton]; exact List.Subset.refl _
  | case3 x y xs h ih =>
    rw [sweepMeet.eq_3, if_pos h]
    exact List.cons_subset_cons x ih
  | case4 x y xs h ih =>
    rw [sweepMeet.eq_3, if_neg h]
    intro z hz
    exact List.mem_cons_of_mem x ((rotateLast_perm _).subset (ih hz))

/-- From a list that is not safe a dropped element is left besides. -/
theorem sweepMeet_perm_cons {xs : List α} (hne : xs ≠ []) (h : ¬ MeetSafe keep xs) :
    ∃ r ∈ xs, keep r = false ∧ (sweepMeet keep xs).Perm (r :: xs.filter keep) := by
  obtain ⟨ys, r, hys, hperm, hr⟩ := sweepMeet_eq keep hne
  have hdrop : keep r ≠ true := mt hr.1 h
  have hmem : r ∈ sweepMeet keep xs := by simp [hys]
  rw [List.filter_cons_of_neg hdrop, List.filter_nil, List.append_nil] at hperm
  refine ⟨r, sweepMeet_subset keep xs hmem, by simpa using hdrop, ?_⟩
  rw [hys]
  exact (List.perm_append_singleton r ys).trans (hperm.cons r)

/-- A list that is not pairwise related has an element not related to an
    earlier one. -/
theorem exists_of_not_pairwise {r : α → α → Prop} {xs : List α} (h : ¬ xs.Pairwise r) :
    ∃ pre c rest, xs = pre ++ c :: rest ∧ ∃ d ∈ pre, ¬ r d c := by
  induction xs using List.reverseRecOn with
  | nil => exact absurd .nil h
  | append_singleton xs x ih =>
    by_cases hx : xs.Pairwise r
    · rw [List.pairwise_append] at h
      simp only [hx, List.pairwise_singleton, List.mem_singleton, forall_eq, true_and] at h
      push Not at h
      obtain ⟨d, hd, hr⟩ := h
      exact ⟨xs, x, [], rfl, d, hd, hr⟩
    · obtain ⟨pre, c, rest, rfl, hd⟩ := ih hx
      exact ⟨pre, c, rest ++ [x], by simp, hd⟩

end CppExperiment
