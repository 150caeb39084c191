/-
  Lists of named fields in one text: `name sep text`, joined by a separator.

  * `find key s` is the first place where `key` stands in `s`.
  * `lookup` searches a field by its name as programs do it without parsing the
    list: the name and `sep` at the start of the text, or else the first place
    of the separator, the name and `sep`.  `lookup_join`: on a joined list this
    is the lookup in the list of fields, as long as names and texts are free of
    the separator and names of `sep`.
-/
import Mathlib

namespace CppExperiment

variable {α : Type*}

section
variable [DecidableEq α]

/-! ## Searching a text -/

/-- The first place where `key` stands. -/
def find (key : List α) : List α → Option ℕ
  | [] => if key = [] then some 0 else none
  | c :: s => if key <+: c :: s then some 0 else (find key s).map (· + 1)

variable {f : α} {k u r s : List α}

/-- A key that starts with `f` is not found in a text without `f`. -/
theorem find_append (h : f ∉ u) :
    find (f :: k) (u ++ r) = (find (f :: k) r).map (· + u.length) := by
  induction u with
  | nil => simp
  | cons c u ih =>
    rw [List.mem_cons, not_or] at h
    have hc : ¬ f :: k <+: c :: (u ++ r) := fun hp => h.1 (List.cons_prefix_cons.1 hp).1
    rw [List.cons_append, find, if_neg hc, ih h.2, Option.map_map, List.length_cons]
    rfl

theorem prefix_of_find {i : ℕ} (h : find k s = some i) : k <+: s.drop i := by
  induction s generalizing i with
  | nil =>
    rw [find] at h
    split_ifs at h with hk
    rw [hk]
    exact List.nil_prefix
  | cons c s ih =>
    rw [find] at h
    split_ifs at h with hk
    · cases h; exact hk
    · obtain ⟨j, hj, rfl⟩ := Option.map_eq_some_iff.1 h
      exact ih hj

theorem find_eq_zero (h : k <+: s) : find k s = some 0 := by
  cases s with
  | nil => rw [find, if_pos (List.prefix_nil.1 h)]
  | cons c s => rw [find, if_pos h]

end

/-! ## Fields -/

variable {f sep : α} {n n' s t u : List α}

/-- The text of a field. -/
def field (sep : α) (p : List α × List α) : List α := p.1 ++ sep :: p.2

/-- The fields, joined by `f`. -/
def join (f sep : α) (ps : List (List α × List α)) : List α := [f].intercalate (ps.map (field sep))

/-- The fields, each after a separator. -/
def joinTail (f sep : α) (ps : List (List α × List α)) : List α := ps.flatMap (f :: field sep ·)

/-- The fields can be told apart. -/
structure Separate (f sep : α) (ps : List (List α × List α)) : Prop where
  ne : f ≠ sep
  name : ∀ p ∈ ps, f ∉ p.1
  sep : ∀ p ∈ ps, sep ∉ p.1
  text : ∀ p ∈ ps, f ∉ p.2

variable {p : List α × List α} {ps : List (List α × List α)}

theorem Separate.tail (h : Separate f sep (p :: ps)) : Separate f sep ps :=
  ⟨h.ne, fun q hq => h.name q (List.mem_cons_of_mem _ hq),
    fun q hq => h.sep q (List.mem_cons_of_mem _ hq),
    fun q hq => h.text q (List.mem_cons_of_mem _ hq)⟩

/-- A field has no separator. -/
theorem Separate.notMem_field (h : Separate f sep ps) (hp : p ∈ ps) : f ∉ field sep p := by
  rw [field, List.mem_append, List.mem_cons]
  rintro (h1 | h1 | h1)
  · exact h.name p hp h1
  · exact h.ne h1
  · exact h.text p hp h1

theorem join_cons : join f sep (p :: ps) = field sep p ++ joinTail f sep ps := by
  induction ps generalizing p with
  | nil => simp [join, joinTail]
  | cons q ps ih =>
    have ih := ih (p := q)
    rw [join] at ih ⊢
    rw [List.map_cons, List.map_cons, List.intercalate_cons_cons, ← List.map_cons, ih, joinTail,
      joinTail, List.flatMap_cons]
    simp

/-- A name with `sep` behind it determines the name of the field. -/
theorem prefix_field_iff (h : sep ∉ n) (h' : sep ∉ n') :
    n ++ [sep] <+: n' ++ sep :: t ↔ n = n' := by
  constructor
  · intro hp
    induction n generalizing n' with
    | nil =>
      cases n' with
      | nil => rfl
      | cons c n' =>
        rw [List.nil_append, List.cons_append] at hp
        exact absurd ((List.cons_prefix_cons.1 hp).1 ▸ List.mem_cons_self) h'
    | cons c n ih =>
      rw [List.mem_cons, not_or] at h
      cases n' with
      | nil =>
        rw [List.nil_append, List.cons_append] at hp
        exact absurd (List.cons_prefix_cons.1 hp).1.symm h.1
      | cons d n' =>
        rw [List.mem_cons, not_or] at h'
        rw [List.cons_append, List.cons_append] at hp
        obtain ⟨hc, hp⟩ := List.cons_prefix_cons.1 hp
        rw [hc, ih h.2 h'.2 hp]
  · rintro rfl
    exact ⟨t, by simp⟩

/-! ## Looking up a field -/

variable [DecidableEq α]

/-- The place where the text of the field `n` starts. -/
def textAt (f sep : α) (n s : List α) : Option ℕ :=
  if n ++ [sep] <+: s then some (n.length + 1)
  else (find (f :: n ++ [sep]) s).map (· + (n.length + 2))

theorem textAt_le {i : ℕ} (h : textAt f sep n s = some i) : i ≤ s.length := by
  rw [textAt] at h
  split_ifs at h with hp
  · have hl := hp.length_le
    rw [List.length_append, List.length_singleton] at hl
    cases h
    exact hl
  · obtain ⟨j, hj, rfl⟩ := Option.map_eq_some_iff.1 h
    have hl := (prefix_of_find hj).length_le
    simp only [List.length_append, List.length_cons, List.length_nil, List.length_drop] at hl
    omega

/-- The text of the field `n`: it ends at the next separator. -/
def lookup (f sep : α) (n s : List α) : Option (List α) :=
  (textAt f sep n s).map fun i => (s.drop i).takeWhile (· ≠ f)

/-- A text up to the next separator. -/
theorem takeWhile_joinTail (h : f ∉ t) : (t ++ joinTail f sep ps).takeWhile (· ≠ f) = t := by
  have hne : ∀ a ∈ t, decide (a ≠ f) = true := by
    intro a ha
    rw [decide_eq_true_eq]
    rintro rfl
    exact h ha
  rw [List.takeWhile_append_of_pos hne]
  cases ps with
  | nil => simp [joinTail]
  | cons p ps => simp [joinTail]

/-- The search of a name in the fields after a text `u`: the first field of
    this name, or none. -/
theorem find_joinTail (h : Separate f sep ps) (hn : sep ∉ n) (hu : f ∉ u) :
    (find (f :: n ++ [sep]) (u ++ joinTail f sep ps)).map
      (fun i => ((u ++ joinTail f sep ps).drop (i + (n.length + 2))).takeWhile (· ≠ f)) =
        ps.lookup n := by
  induction ps generalizing u with
  | nil =>
    rw [List.cons_append, find_append hu]
    rfl
  | cons p ps ih =>
    have hp := List.mem_cons_self (a := p) (l := ps)
    have htail : joinTail f sep (p :: ps) = f :: (p.1 ++ sep :: (p.2 ++ joinTail f sep ps)) := by
      simp [joinTail, field]
    rw [List.cons_append, find_append hu, htail]
    by_cases hname : n = p.1
    · -- the field is found, and its text ends before the next separator
      subst hname
      have hpre : f :: (p.1 ++ [sep]) <+: f :: (p.1 ++ sep :: (p.2 ++ joinTail f sep ps)) :=
        List.cons_prefix_cons.2 ⟨rfl, (prefix_field_iff hn hn).2 rfl⟩
      have hdrop : (u ++ f :: (p.1 ++ sep :: (p.2 ++ joinTail f sep ps))).drop
          (0 + u.length + (p.1.length + 2)) = p.2 ++ joinTail f sep ps := by
        rw [← List.drop_drop, Nat.zero_add, List.drop_left, List.drop_succ_cons,
          ← List.drop_drop, List.drop_left]
        rfl
      rw [find_eq_zero hpre, Option.map_some, Option.map_some, hdrop,
        takeWhile_joinTail (h.text p hp)]
      simp [List.lookup]
    · -- no key stands here: go on behind the separator, where there is none up to the next one
      have hpre : ¬ f :: (n ++ [sep]) <+: f :: (p.1 ++ sep :: (p.2 ++ joinTail f sep ps)) := by
        intro hk
        exact hname ((prefix_field_iff hn (h.sep p hp)).1 (List.cons_prefix_cons.1 hk).2)
      have hdrop (i : ℕ) : (u ++ f :: (field sep p ++ joinTail f sep ps)).drop
          (i + 1 + u.length + (n.length + 2)) =
            (field sep p ++ joinTail f sep ps).drop (i + (n.length + 2)) := by
        rw [show i + 1 + u.length + (n.length + 2) = u.length + (i + (n.length + 2) + 1) by omega,
          ← List.drop_drop, List.drop_left, List.drop_succ_cons]
      have hlook : (p :: ps).lookup n = ps.lookup n := by
        rw [List.lookup_cons, beq_false_of_ne hname]
      have hfield :
          p.1 ++ sep :: (p.2 ++ joinTail f sep ps) = field sep p ++ joinTail f sep ps := by
        simp [field]
      rw [hlook, ← ih h.tail (h.notMem_field hp), find, if_neg hpre, Option.map_map, Option.map_map,
        hfield, List.cons_append]
      congr 1
      funext i
      exact congrArg (List.takeWhile (· ≠ f)) (hdrop i)

/-- With distinct names, every field of the list is found. -/
theorem lookup_of_mem (hnd : (ps.map Prod.fst).Nodup) (h : (n, t) ∈ ps) :
    ps.lookup n = some t := by
  obtain ⟨l₁, l₂, rfl⟩ := List.append_of_mem h
  rw [List.map_append, List.map_cons, List.nodup_append] at hnd
  refine List.lookup_eq_some_iff.2 ⟨l₁, l₂, rfl, ?_⟩
  intro p hp
  have hne := hnd.2.2 p.1 (List.mem_map_of_mem hp) n List.mem_cons_self
  exact bne_iff_ne.2 hne.symm

theorem lookup_of_notMem (h : n ∉ ps.map Prod.fst) : ps.lookup n = none := by
  rw [List.lookup_eq_none_iff]
  intro p hp
  exact bne_iff_ne.2 fun hn => h (hn ▸ List.mem_map_of_mem hp)

/-- **The lookup in the text is the lookup in the list**: the first field of
    the name. -/
theorem lookup_join (h : Separate f sep ps) (hn' : sep ∉ n) :
    lookup f sep n (join f sep ps) = ps.lookup n := by
  cases ps with
  | nil =>
    have h1 : ¬ n ++ [sep] <+: ([] : List α) := by simp
    rw [lookup, textAt, join, List.map_nil, List.intercalate_nil, if_neg h1]
    rfl
  | cons p ps =>
    have hp := List.mem_cons_self (a := p) (l := ps)
    have hfield : field sep p ++ joinTail f sep ps = p.1 ++ sep :: (p.2 ++ joinTail f sep ps) := by
      simp [field]
    rw [lookup, textAt, join_cons]
    by_cases hname : n = p.1
    · subst hname
      rw [if_pos (hfield ▸ (prefix_field_iff hn' hn').2 rfl), Option.map_some, hfield,
        ← List.drop_drop, List.drop_left, List.drop_one, List.tail_cons,
        takeWhile_joinTail (h.text p hp)]
      simp [List.lookup]
    · have hpre : ¬ n ++ [sep] <+: field sep p ++ joinTail f sep ps := by
        intro hk
        exact hname ((prefix_field_iff hn' (h.sep p hp)).1 (hfield ▸ hk))
      rw [if_neg hpre, List.lookup_cons, beq_false_of_ne hname, Option.map_map]
      exact find_joinTail h.tail hn' (h.notMem_field hp)

end CppExperiment
