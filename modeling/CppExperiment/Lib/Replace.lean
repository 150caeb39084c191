/-
  The occurrences of a text in a text, and replacing them from left to right.

  * `First b s u r`: the first occurrence of `b` in `s` stands between `u` and
    `r`.
  * `Behind b s r`: `r` is what stands behind one of the occurrences that a
    search from left to right finds, which goes on behind each occurrence.
  * `replaceAll` replaces these occurrences.  As many letters as `a` and `b`
    have in common at the start are left as they are (`getElem?_replaceAll`).
-/
import Mathlib

namespace CppExperiment

variable {α : Type*} {a b r r' s t t' u u' : List α} {c : α}

/-! ## Occurrences -/

/-- No occurrence of `b` starts in `t`, where `r` stands behind `t`. -/
def NoStart (b t r : List α) : Prop := ∀ i < t.length, ¬ b <+: (t ++ r).drop i

/-- The first occurrence of `b` in `s` stands between `u` and `r`. -/
structure First (b s u r : List α) : Prop where
  eq : s = u ++ (b ++ r)
  min : NoStart b u (b ++ r)

/-- `r` stands behind an occurrence of `b` that is found in `s` from left to
    right. -/
inductive Behind (b : List α) : List α → List α → Prop where
  | found {s u r : List α} : First b s u r → Behind b s r
  | next {s u r r' : List α} : First b s u r → Behind b r r' → Behind b s r'

theorem noStart_nil : NoStart b [] r := fun _ h => absurd h (Nat.not_lt_zero _)

theorem NoStart.cons (hc : ¬ b <+: c :: (t ++ r)) (h : NoStart b t r) : NoStart b (c :: t) r := by
  intro i hi
  cases i with
  | zero => exact hc
  | succ i => exact h i (Nat.lt_of_succ_lt_succ hi)

theorem noStart_of_notInfix (h : ¬ b <:+: t ++ r) : NoStart b t r := fun _ _ hi =>
  h (hi.isInfix.trans (List.drop_suffix _ _).isInfix)

theorem NoStart.append (h : NoStart b t (t' ++ r)) (h' : NoStart b t' r) :
    NoStart b (t ++ t') r := by
  intro i hi
  rw [List.append_assoc]
  by_cases hlt : i < t.length
  · exact h i hlt
  · rw [List.length_append] at hi
    obtain ⟨j, rfl⟩ := Nat.exists_eq_add_of_le (not_lt.1 hlt)
    rw [List.drop_length_add_append]
    exact h' j (by omega)

/-- None starts in a text without one, before a letter that is not in `b`. -/
theorem noStart_concat (h : ¬ b <:+: t) (hc : c ∉ b) (r : List α) : NoStart b (t ++ [c]) r := by
  intro i hi hp
  rw [List.length_append, List.length_singleton] at hi
  rw [List.append_assoc, List.drop_append_of_le_length (Nat.le_of_lt_succ hi)] at hp
  rcases Nat.lt_or_ge (t.drop i).length b.length with hlt | hle
  · have hone : t.drop i ++ [c] <+: b := by
      refine List.prefix_of_prefix_length_le ?_ hp (by rw [List.length_append]; exact hlt)
      rw [← List.append_assoc]
      exact List.prefix_append _ r
    exact hc (hone.subset (by simp))
  · have hin := List.prefix_of_prefix_length_le hp (List.prefix_append _ _) hle
    exact h (hin.isInfix.trans (List.drop_suffix i t).isInfix)

/-- A text with `c` behind it starts where the next `c`, or a letter that is not
    in the text, stands behind `t`. -/
theorem prefix_concat {d : α} (hb : d ∉ b) (ht : c ∉ t) (h : b ++ [c] <+: t ++ d :: r) :
    b = t ∧ d = c := by
  obtain ⟨s, hs⟩ := h
  rw [List.append_assoc, List.singleton_append, List.append_eq_append_iff] at hs
  rcases hs with ⟨a, rfl, ha⟩ | ⟨a, rfl, ha⟩
  · cases a with
    | nil => exact ⟨(List.append_nil b).symm, (List.head_eq_of_cons_eq ha).symm⟩
    | cons x a =>
      obtain rfl := List.head_eq_of_cons_eq ha
      exact absurd (by simp) ht
  · cases a with
    | nil => exact ⟨List.append_nil t, List.head_eq_of_cons_eq ha⟩
    | cons x a =>
      obtain rfl := List.head_eq_of_cons_eq ha
      exact absurd (by simp) hb

/-- There is a first occurrence. -/
theorem exists_first (h : b <:+: s) : ∃ u r, First b s u r := by
  induction s with
  | nil =>
    obtain rfl := List.infix_nil.1 h
    exact ⟨[], [], rfl, noStart_nil⟩
  | cons c s ih =>
    by_cases hp : b <+: c :: s
    · obtain ⟨r, hr⟩ := hp
      exact ⟨[], r, hr.symm, noStart_nil⟩
    · obtain ⟨u, r, rfl, hmin⟩ := ih ((List.infix_cons_iff.1 h).resolve_left hp)
      exact ⟨c :: u, r, rfl, hmin.cons hp⟩

/-- No occurrence starts before the first one. -/
theorem First.length_le (h : First b (t ++ r) u r') (ht : NoStart b t r) :
    t.length ≤ u.length := by
  by_contra hlt
  apply ht u.length (not_le.1 hlt)
  rw [h.eq, List.drop_left]
  exact List.prefix_append _ _

/-- None starts in the whole text. -/
theorem NoStart.notInfix (h : NoStart b t []) (hb : b ≠ []) : ¬ b <:+: t := by
  intro hin
  obtain ⟨u, r, hfirst⟩ := exists_first hin
  have hlen := congrArg List.length hfirst.eq
  rw [List.length_append, List.length_append] at hlen
  have hpos := List.length_pos_iff.2 hb
  refine h u.length (by omega) ?_
  rw [List.append_nil, hfirst.eq, List.drop_left]
  exact List.prefix_append b r

/-- A text in which none starts, in front. -/
theorem First.noStart_append (ht : NoStart b t s) (h : First b s u r) :
    First b (t ++ s) (t ++ u) r := by
  obtain ⟨rfl, hmin⟩ := h
  exact ⟨(List.append_assoc t u _).symm, ht.append hmin⟩

/-- A text behind does not change the first occurrence. -/
theorem First.append (h : First b s u r) (t : List α) : First b (s ++ t) u (r ++ t) := by
  obtain ⟨rfl, hmin⟩ := h
  refine ⟨by simp only [List.append_assoc], ?_⟩
  intro i hi hp
  refine hmin i hi ?_
  rw [List.drop_append_of_le_length hi.le] at hp ⊢
  refine List.prefix_of_prefix_length_le hp ?_ ?_
  · exact ⟨t, by simp only [List.append_assoc]⟩
  · simp only [List.length_append]
    omega

/-- The first occurrence stands behind a text in which none starts. -/
theorem First.of_append (h : First b (t ++ r) u r') (hle : t.length ≤ u.length) :
    ∃ u', u = t ++ u' ∧ First b r u' r' := by
  obtain ⟨u', rfl⟩ : t <+: u :=
    List.prefix_of_prefix_length_le (List.prefix_append t r) ⟨_, h.eq.symm⟩ hle
  have heq := h.eq
  rw [List.append_assoc, List.append_cancel_left_eq] at heq
  refine ⟨u', rfl, heq, ?_⟩
  intro i hi hp
  apply h.min (t.length + i) (by rw [List.length_append]; omega)
  rwa [List.append_assoc, List.drop_length_add_append]

theorem First.unique (h : First b s u r) (h' : First b s u' r') : u = u' ∧ r = r' := by
  have hs := h.eq
  obtain rfl : u = u' := by
    have heq := hs.symm.trans h'.eq
    refine List.append_inj_left heq (le_antisymm ?_ ?_)
    · exact First.length_le (hs ▸ h') h.min
    · exact First.length_le (h'.eq ▸ h) h'.min
  rw [h'.eq, List.append_cancel_left_eq, List.append_cancel_left_eq] at hs
  exact ⟨rfl, hs.symm⟩

theorem Behind.isInfix (h : Behind b s r) : b <:+: s := by
  cases h with
  | found h => exact ⟨_, r, by rw [h.eq, List.append_assoc]⟩
  | next h _ => exact ⟨_, _, by rw [h.eq, List.append_assoc]⟩

/-- A letter at which no occurrence starts changes nothing. -/
theorem Behind.cons (hc : ¬ b <+: c :: s) (h : Behind b s r) : Behind b (c :: s) r := by
  have hfirst {u r' : List α} (h : First b s u r') : First b (c :: s) (c :: u) r' :=
    ⟨by rw [h.eq, List.cons_append], h.min.cons (h.eq ▸ hc)⟩
  cases h with
  | found h => exact .found (hfirst h)
  | next h h' => exact .next (hfirst h) h'

theorem Behind.of_cons (hc : ¬ b <+: c :: s) (h : Behind b (c :: s) r) : Behind b s r := by
  have hone : NoStart b [c] s := noStart_nil.cons hc
  cases h with
  | found h =>
    obtain ⟨u, -, h'⟩ := First.of_append h (h.length_le hone)
    exact .found h'
  | next h h' =>
    obtain ⟨u, -, h⟩ := First.of_append h (h.length_le hone)
    exact .next h h'

/-- A text that can overlap itself. -/
def SelfOverlaps (s : List α) : Prop := ∃ t, t ≠ [] ∧ t.length < s.length ∧ t <+: s ∧ t <:+ s

/-- No occurrence starts in the end of a text that cannot overlap itself. -/
theorem noStart_of_suffix (hs : ¬ SelfOverlaps s) (hb : s <+: b) (ht : t <:+ s)
    (hlt : t.length < s.length) (r : List α) : NoStart b t r := by
  intro i hi hp
  rw [List.drop_append_of_le_length hi.le] at hp
  have hlen : (t.drop i).length < s.length := by
    rw [List.length_drop]
    omega
  have hpre : t.drop i <+: b :=
    List.prefix_of_prefix_length_le (List.prefix_append _ r) hp (hlen.le.trans hb.length_le)
  have hne : t.drop i ≠ [] := by
    rw [Ne, List.drop_eq_nil_iff, not_le]
    exact hi
  exact hs ⟨t.drop i, hne, hlen,
    List.prefix_of_prefix_length_le hpre hb hlen.le, (List.drop_suffix i t).trans ht⟩

/-! ## Replacing them -/

variable [DecidableEq α]

/-- Replace the occurrences of `b` by `a`, from left to right; `skip` letters
    belong to the last one that was replaced. -/
def replaceAll (b a : List α) : (skip : ℕ) → List α → List α
  | _, [] => []
  | skip + 1, _ :: s => replaceAll b a skip s
  | 0, c :: s =>
    if b <+: c :: s then a ++ replaceAll b a (b.length - 1) s else c :: replaceAll b a 0 s

theorem replaceAll_skip (p s : List α) : replaceAll b a p.length (p ++ s) = replaceAll b a 0 s := by
  induction p with
  | nil => rfl
  | cons c p ih => rw [List.cons_append, List.length_cons, replaceAll, ih]

theorem replaceAll_cons (h : ¬ b <+: c :: s) :
    replaceAll b a 0 (c :: s) = c :: replaceAll b a 0 s := by
  rw [replaceAll, if_neg h]

theorem replaceAll_append (hb : b ≠ []) (r : List α) :
    replaceAll b a 0 (b ++ r) = a ++ replaceAll b a 0 r := by
  obtain ⟨c, b', rfl⟩ := List.exists_cons_of_ne_nil hb
  have hp : c :: b' <+: c :: (b' ++ r) := List.prefix_append (c :: b') r
  rw [List.cons_append, replaceAll, if_pos hp, List.length_cons, Nat.add_sub_cancel,
    replaceAll_skip]

/-- Letters at which no occurrence starts are kept. -/
theorem replaceAll_noStart (h : NoStart b t r) :
    replaceAll b a 0 (t ++ r) = t ++ replaceAll b a 0 r := by
  induction t with
  | nil => rfl
  | cons c t ih =>
    have hc : ¬ b <+: c :: (t ++ r) := h 0 (Nat.succ_pos _)
    have ht : NoStart b t r := fun i hi => h (i + 1) (Nat.succ_lt_succ hi)
    rw [List.cons_append, replaceAll_cons hc, ih ht, List.cons_append]

theorem replaceAll_eq_self (h : ¬ b <:+: s) : replaceAll b a 0 s = s := by
  rw [← List.append_nil s] at h
  have hs := replaceAll_noStart (a := a) (noStart_of_notInfix h)
  rwa [List.append_nil, replaceAll, List.append_nil] at hs

/-- **The first occurrence is replaced**, then those behind it. -/
theorem replaceAll_first (hb : b ≠ []) (h : First b s u r) :
    replaceAll b a 0 s = u ++ (a ++ replaceAll b a 0 r) := by
  rw [h.eq, replaceAll_noStart h.min, replaceAll_append hb]

/-- The first letters stay, as far as `a` and `b` agree. -/
theorem getElem?_replaceAll {e k : ℕ} (hab : ∀ i < e, a[i]? = b[i]?) (ha : e < a.length)
    (hb : e < b.length) (hk : k < e) (s : List α) : (replaceAll b a 0 s)[k]? = s[k]? := by
  have hne : b ≠ [] := List.ne_nil_of_length_pos (Nat.zero_lt_of_lt hb)
  by_cases hs : b <:+: s
  · obtain ⟨u, r, h⟩ := exists_first hs
    rw [replaceAll_first hne h]
    by_cases hku : k < u.length
    · rw [List.getElem?_append_left hku, h.eq, List.getElem?_append_left hku]
    · have hu := not_lt.1 hku
      have hj : k - u.length < e := by omega
      rw [List.getElem?_append_right hu, List.getElem?_append_left (hj.trans ha), hab _ hj, h.eq,
        List.getElem?_append_right hu, List.getElem?_append_left (hj.trans hb)]
  · rw [replaceAll_eq_self hs]

/-- Two texts, none a start of the other, differ at some place first. -/
theorem exists_differ (hab : ¬ a <+: b) (hba : ¬ b <+: a) :
    ∃ e < a.length, (∀ i < e, a[i]? = b[i]?) ∧ a[e]? ≠ b[e]? ∧ e < b.length := by
  induction a generalizing b with
  | nil => exact absurd List.nil_prefix hab
  | cons c a ih =>
    cases b with
    | nil => exact absurd List.nil_prefix hba
    | cons d b =>
      by_cases hcd : c = d
      · subst hcd
        rw [List.prefix_cons_inj] at hab hba
        obtain ⟨e, hea, hlt, hne, heb⟩ := ih hab hba
        refine ⟨e + 1, Nat.succ_lt_succ hea, ?_, hne, Nat.succ_lt_succ heb⟩
        intro i hi
        cases i with
        | zero => rfl
        | succ i => exact hlt i (Nat.lt_of_succ_lt_succ hi)
      · refine ⟨0, Nat.succ_pos _, fun i hi => absurd hi (Nat.not_lt_zero i), ?_, Nat.succ_pos _⟩
        intro h
        exact hcd (Option.some_inj.1 h)

end CppExperiment
