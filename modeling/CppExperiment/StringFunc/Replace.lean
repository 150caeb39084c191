/-
  `str::ReplaceStr` of CommonTools/StringFunc.cc.

  The loop goes on one character behind the start of what it has inserted
  (`index = it + 1`), not behind its end.

  * `replaceStr_returns_iff`: the loop ends, unless the inserted text has
    another occurrence behind its first character.
  * `Replaces`: what the loop leaves, without its indices.
  * `replaceStr_replaceAll`: the result is that of replacing from left to right,
    if the search never meets an occurrence that starts in an inserted text
    (`Resumes`); and only then, unless `after` is a start of `before` and the
    texts can overlap themselves.
-/
import CppExperiment.Lib.Replace
import CppExperiment.StringFunc.Split

namespace CppExperiment.StringFunc
open StdString

/-- The loop of `ReplaceStr`, for `n` rounds; `none` if it has not ended then. -/
def replaceLoop (before after : Str) : (n : ℕ) → (src : Str) → (index : ℕ) → Option Str
  | 0, _, _ => none
  | n + 1, src, index =>
    match findStrFrom src before index with
    | none => some src
    | some it => do
      let src ← replace src it before.length after
      replaceLoop before after n src (it + 1)

/-- `ReplaceStr(src, before, after)`: what it leaves in `src`. -/
def replaceStr (n : ℕ) (src before after : Str) : Option Str :=
  if src.isEmpty then some src else replaceLoop before after n src 0

variable {n i : ℕ} {src before after done s t r u o x : Str} {c : UInt8}

/-! ## One round -/

theorem replaceLoop_stop (h : ¬ before <:+: s) :
    replaceLoop before after (n + 1) (done ++ s) done.length = some (done ++ s) := by
  have hle : done.length ≤ (done ++ s).length := by rw [List.length_append]; omega
  rw [replaceLoop, findStrFrom, if_pos hle, List.drop_left, findStr_notInfix h, Option.map_none]

theorem replaceLoop_found (h : First before s u r) :
    replaceLoop before after (n + 1) (done ++ s) done.length =
      replaceLoop before after n (done ++ (u ++ (after ++ r)))
        (done.length + (u.length + 1)) := by
  have hle : done.length ≤ (done ++ s).length := by rw [List.length_append]; omega
  have hit : done.length + u.length ≤ (done ++ s).length := by
    rw [h.eq, List.length_append, List.length_append]
    omega
  rw [replaceLoop, findStrFrom, if_pos hle, List.drop_left, findStr_first h, Option.map_some]
  change (replace _ _ _ _).bind _ = _
  rw [replace, if_pos hit, Option.bind_some, h.eq, Nat.add_assoc, List.take_length_add_append,
    List.drop_length_add_append, List.take_left, ← List.drop_drop, List.drop_left, List.drop_left,
    List.append_assoc, Nat.add_assoc]

/-- The search starts behind the string. -/
theorem replaceLoop_over (h : src.length < i) :
    replaceLoop before after (n + 1) src i = some src := by
  rw [replaceLoop, findStrFrom, if_neg (not_le.2 h)]

/-! ## The loop ends -/

/-- No occurrence starts in `t`, the part of the inserted text that is searched
    again: every round takes something from the old text `r`.  The induction is
    on its length. -/
theorem replaceLoop_returns (hb : before ≠ []) (ha : ¬ before <:+: after.tail)
    (ht : ¬ before <:+: t) (done r : Str) :
    ∃ n, replaceLoop before after n (done ++ (t ++ r)) done.length ≠ none := by
  induction hl : r.length using Nat.strong_induction_on generalizing done t r with
  | h l ih =>
    by_cases hs : before <:+: t ++ r
    · obtain ⟨u, r', h⟩ := exists_first hs
      have hlt : r'.length < r.length := by
        by_contra hle
        have heq := h.eq
        rw [← List.append_assoc] at heq
        have hlen := congrArg List.length heq
        rw [List.length_append, List.length_append] at hlen
        obtain ⟨w, rfl⟩ : u ++ before <+: t :=
          List.prefix_of_prefix_length_le ⟨r', heq.symm⟩ (List.prefix_append t r) (by omega)
        exact ht ⟨u, w, rfl⟩
      cases hr : after ++ r' with
      | nil =>
        refine ⟨2, ?_⟩
        rw [replaceLoop_found h, hr, List.append_nil,
          replaceLoop_over (by rw [List.length_append]; omega)]
        exact Option.some_ne_none _
      | cons c w =>
        have hstep (n : ℕ) : replaceLoop before after (n + 1) (done ++ (t ++ r)) done.length =
            replaceLoop before after n (done ++ u ++ [c] ++ w) (done ++ u ++ [c]).length := by
          rw [replaceLoop_found h, hr]
          simp
        cases after with
        | nil =>
          rw [List.nil_append] at hr
          subst hr
          obtain ⟨n, hn⟩ := ih w.length (by rw [List.length_cons] at hlt; omega)
            (by rwa [List.infix_nil]) (done ++ u ++ [c]) w rfl
          exact ⟨n + 1, by rwa [hstep]⟩
        | cons c' t' =>
          rw [List.cons_append, List.cons.injEq] at hr
          obtain ⟨rfl, rfl⟩ := hr
          obtain ⟨n, hn⟩ := ih r'.length (by omega) ha (done ++ u ++ [c']) r' rfl
          exact ⟨n + 1, by rwa [hstep]⟩
    · exact ⟨1, by rw [replaceLoop_stop hs]; exact Option.some_ne_none _⟩

theorem replaceStr_returns (hb : before ≠ []) (ha : ¬ before <:+: after.tail) (src : Str) :
    ∃ n, replaceStr n src before after ≠ none := by
  by_cases hsrc : src.isEmpty
  · exact ⟨0, by rw [replaceStr, if_pos hsrc]; exact Option.some_ne_none _⟩
  · obtain ⟨n, hn⟩ := replaceLoop_returns hb ha (t := []) (by rwa [List.infix_nil]) [] src
    exact ⟨n, by rwa [replaceStr, if_neg hsrc]⟩

/-- Nothing is inserted for nothing. -/
theorem replaceLoop_nil_returns (done s : Str) :
    ∃ n, replaceLoop [] [] n (done ++ s) done.length ≠ none := by
  have h (s : Str) : First [] s [] s := ⟨rfl, noStart_nil⟩
  induction s generalizing done with
  | nil =>
    refine ⟨2, ?_⟩
    rw [replaceLoop_found (h []), replaceLoop_over (by simp)]
    exact Option.some_ne_none _
  | cons c s ih =>
    obtain ⟨n, hn⟩ := ih (done ++ [c])
    refine ⟨n + 1, ?_⟩
    rw [replaceLoop_found (h (c :: s))]
    simpa using hn

/-- The inserted text has an occurrence behind its first character: the search
    ends at none of them. -/
theorem replaceLoop_diverges (ht : before <:+: t) (hs : before <:+: s) (done : Str) :
    replaceLoop before (c :: t) n (done ++ s) done.length = none := by
  induction n generalizing done s with
  | zero => rfl
  | succ n ih =>
    obtain ⟨u, r, h⟩ := exists_first hs
    have ih := ih (ht.trans (List.prefix_append t r).isInfix) (done ++ u ++ [c])
    rw [replaceLoop_found h]
    simpa using ih

/-- **When `ReplaceStr` ends.** -/
theorem replaceStr_returns_iff (src before after : Str) :
    (∃ n, replaceStr n src before after ≠ none) ↔
      src = [] ∨ ¬ before <:+: src ∨ after = [] ∨ ¬ before <:+: after.tail := by
  by_cases hsrc : src.isEmpty
  · refine ⟨fun _ => .inl (List.isEmpty_iff.1 hsrc), fun _ => ⟨0, ?_⟩⟩
    rw [replaceStr, if_pos hsrc]
    exact Option.some_ne_none _
  have hloop (n : ℕ) : replaceStr n src before after = replaceLoop before after n src 0 := by
    rw [replaceStr, if_neg hsrc]
  constructor
  · rintro ⟨n, hn⟩
    by_contra hno
    simp only [not_or, not_not] at hno
    obtain ⟨-, hin, hafter, ht⟩ := hno
    obtain ⟨c, t, rfl⟩ := List.exists_cons_of_ne_nil hafter
    rw [hloop] at hn
    exact hn (replaceLoop_diverges ht hin [])
  · rintro (h | h | rfl | h)
    · exact absurd (List.isEmpty_iff.2 h) hsrc
    · refine ⟨1, ?_⟩
      rw [hloop]
      have hstop := @replaceLoop_stop 0 before after [] src h
      exact fun h => Option.some_ne_none _ (hstop.symm.trans h)
    · by_cases hb : before = []
      · subst hb
        obtain ⟨n, hn⟩ := replaceLoop_nil_returns [] src
        exact ⟨n, by rwa [hloop]⟩
      · exact replaceStr_returns hb (by rwa [List.tail_nil, List.infix_nil]) src
    · refine replaceStr_returns ?_ h src
      rintro rfl
      exact h List.nil_infix

/-- `a` replaced by `aa` in `a`: the second `a` of the inserted text is found in
    each round. -/
theorem replaceStr_aa : ¬ ∃ n, replaceStr n [97] [97] [97, 97] ≠ none := by
  rintro ⟨n, hn⟩
  exact hn (replaceLoop_diverges (t := [97]) List.infix_rfl List.infix_rfl [])

/-! ## What the loop leaves -/

/-- The text `s`, from which the search goes on, is left as `o`. -/
inductive Replaces (before after : Str) : Str → Str → Prop where
  | stop {s : Str} : ¬ before <:+: s → Replaces before after s s
  | found {s u r o : Str} : First before s u r → Replaces before after ((after ++ r).drop 1) o →
    Replaces before after s (u ++ ((after ++ r).take 1 ++ o))

/-- No occurrence starts in what the search looks at again, or leaves out, once
    an occurrence with `r` behind it is replaced: the inserted text behind its
    first character, or the first character of `r` if nothing is inserted. -/
def Resumes (before : Str) : (after r : Str) → Prop
  | [], r => ¬ before <+: r
  | _ :: t, r => NoStart before t r

/-- The loop leaves what `Replaces` says. -/
theorem replaces_of_replaceLoop (hb : before ≠ [])
    (h : replaceLoop before after n (done ++ s) done.length = some x) :
    ∃ o, x = done ++ o ∧ Replaces before after s o := by
  induction n generalizing done s with
  | zero => cases h
  | succ n ih =>
    by_cases hs : before <:+: s
    · obtain ⟨u, r, hfirst⟩ := exists_first hs
      rw [replaceLoop_found hfirst] at h
      cases hr : after ++ r with
      | nil =>
        have hstop : Replaces before after ((after ++ r).drop 1) [] := by
          rw [hr]
          exact .stop (by rwa [List.drop_nil, List.infix_nil])
        refine ⟨u, ?_, by simpa [hr] using Replaces.found hfirst hstop⟩
        cases n with
        | zero => cases h
        | succ n =>
          rw [hr, List.append_nil, replaceLoop_over (by rw [List.length_append]; omega)] at h
          exact (Option.some_inj.1 h).symm
      | cons c w =>
        have h' : replaceLoop before after n (done ++ u ++ [c] ++ w) (done ++ u ++ [c]).length =
            some x := by
          rw [hr] at h
          simpa using h
        obtain ⟨o, rfl, ho⟩ := ih h'
        have hfound := Replaces.found (o := o) hfirst (by rwa [hr])
        rw [hr] at hfound
        exact ⟨u ++ ([c] ++ o), by simp, hfound⟩
    · rw [replaceLoop_stop hs, Option.some_inj] at h
      exact ⟨s, h.symm, .stop hs⟩

theorem replaces_of_replaceStr (hb : before ≠ []) (h : replaceStr n src before after = some x) :
    Replaces before after src x := by
  rw [replaceStr] at h
  split_ifs at h with hsrc
  · rw [List.isEmpty_iff.1 hsrc] at h ⊢
    obtain rfl := Option.some_inj.1 h
    exact .stop (by rwa [List.infix_nil])
  · obtain ⟨o, rfl, ho⟩ := @replaces_of_replaceLoop n before after [] src x hb h
    exact ho

/-- The search misses no occurrence and finds no other one: it leaves what is
    left of `t`, in which no occurrence starts, and of the old text `r`. -/
theorem Replaces.eq_replaceAll (hb : before ≠ []) (h : Replaces before after s o) :
    ∀ t r, s = t ++ r → NoStart before t r →
      (∀ r', Behind before r r' → Resumes before after r') →
      o = t ++ replaceAll before after 0 r := by
  induction h with
  | @stop s hs =>
    rintro t r rfl _ _
    have hr : ¬ before <:+: r := fun h => hs (h.trans (List.suffix_append t r).isInfix)
    rw [replaceAll_eq_self hr]
  | @found s u r' o hfirst _ ih =>
    rintro t r rfl ht hclean
    obtain ⟨u, rfl, hr⟩ := hfirst.of_append (hfirst.length_le ht)
    have hclean' (r'' : Str) (h : Behind before r' r'') := hclean r'' (.next hr h)
    have hresumes := hclean r' (.found hr)
    rw [replaceAll_first hb hr]
    cases after with
    | nil =>
      cases r' with
      | nil =>
        rw [ih [] [] rfl noStart_nil hclean']
        simp [replaceAll]
      | cons c w =>
        rw [ih [] w rfl noStart_nil fun r'' h => hclean' r'' (h.cons hresumes),
          replaceAll_cons hresumes]
        simp
    | cons c t' =>
      rw [ih t' r' rfl hresumes hclean']
      simp

/-- Up to the place `e` where `before` and `after` differ, what is left starts
    as `after` does, also when the search goes on in it. -/
theorem Replaces.getElem?_eq {e : ℕ} (hab : ∀ i < e, (c :: t)[i]? = before[i]?)
    (ha : e < (c :: t).length) (hb : e < before.length) (h : Replaces before (c :: t) s o) :
    ∀ r, s = t ++ r → ∀ i ≤ e, (c :: o)[i]? = (c :: t)[i]? := by
  induction h with
  | @stop s _ =>
    rintro r rfl i hi
    rw [← List.cons_append, List.getElem?_append_left (by omega)]
  | @found s u r' o hfirst _ ih =>
    rintro r rfl i hi
    cases i with
    | zero => rfl
    | succ i =>
      have hti : t[i]? = (u ++ (before ++ r'))[i]? := by
        rw [← hfirst.eq, List.getElem?_append_left (by rw [List.length_cons] at ha; omega)]
      change (u ++ (c :: o))[i]? = t[i]?
      rw [hti]
      by_cases hu : i < u.length
      · rw [List.getElem?_append_left hu, List.getElem?_append_left hu]
      · -- behind `u` stand the inserted text and what is left of it
        have hu' := not_lt.1 hu
        have hle : i - u.length ≤ e := by omega
        rw [List.getElem?_append_right hu', List.getElem?_append_right hu',
          List.getElem?_append_left (by omega), ← hab _ (by omega), ih r' rfl _ hle]

/-- If the result is right, the search has met no occurrence that starts in an
    inserted text. -/
theorem Replaces.noStart (hab : ¬ c :: t <+: before) (hba : ¬ before <+: c :: t)
    (h : Replaces before (c :: t) s o) :
    ∀ r, s = t ++ r → o = t ++ replaceAll before (c :: t) 0 r →
      NoStart before t r ∧ ∀ r', Behind before r r' → NoStart before t r' := by
  have hb : before ≠ [] := fun h => hba (h ▸ List.nil_prefix)
  induction h with
  | @stop s hs =>
    rintro r rfl _
    refine ⟨noStart_of_notInfix hs, fun r' h => ?_⟩
    exact absurd (h.isInfix.trans (List.suffix_append t r).isInfix) hs
  | @found s u r' o hfirst hrest ih =>
    rintro r rfl ho
    by_cases hle : t.length ≤ u.length
    · obtain ⟨u, rfl, hr⟩ := hfirst.of_append hle
      have hstart : NoStart before t r := by
        intro i hi
        have h := hfirst.min i (by rw [List.length_append]; omega)
        rwa [← hfirst.eq] at h
      rw [replaceAll_first hb hr] at ho
      have ho' : o = t ++ replaceAll before (c :: t) 0 r' := by simpa using ho
      obtain ⟨hr', hbehind⟩ := ih r' rfl ho'
      refine ⟨hstart, fun r'' h => ?_⟩
      cases h with
      | found h => exact (h.unique hr).2 ▸ hr'
      | next h h' => exact hbehind r'' ((h.unique hr).2 ▸ h')
    · -- the occurrence starts in the inserted text: the results differ at `e`
      exfalso
      obtain ⟨e, hea, hlt, hne, heb⟩ := exists_differ hab hba
      obtain ⟨t₂, ht⟩ : u <+: t :=
        List.prefix_of_prefix_length_le ⟨_, hfirst.eq.symm⟩ (List.prefix_append t r) (by omega)
      have hlen : 0 < t₂.length := by
        have := congrArg List.length ht
        rw [List.length_append] at this
        omega
      have heq : t₂ ++ r = before ++ r' := by
        have h := hfirst.eq
        rwa [← ht, List.append_assoc, List.append_cancel_left_eq] at h
      have ho' : c :: o = t₂ ++ replaceAll before (c :: t) 0 r := by
        rw [← ht, List.append_assoc, List.append_cancel_left_eq] at ho
        rw [ht] at ho
        simpa using ho
      apply hne
      have hleft := hrest.getElem?_eq hlt hea heb r' rfl e le_rfl
      have hright : (t₂ ++ r)[e]? = before[e]? := by rw [heq, List.getElem?_append_left heb]
      rw [← hleft, ho', ← hright]
      by_cases ht₂ : e < t₂.length
      · rw [List.getElem?_append_left ht₂, List.getElem?_append_left ht₂]
      · rw [List.getElem?_append_right (not_lt.1 ht₂), List.getElem?_append_right (not_lt.1 ht₂),
          getElem?_replaceAll hlt hea heb (by omega)]

/-- Deleting a text that cannot overlap itself: an occurrence that is missed is
    left whole. -/
theorem Replaces.length_le (hb : before ≠ []) (hover : ¬ SelfOverlaps before)
    (h : Replaces before [] s o) :
    (replaceAll before [] 0 s).length ≤ o.length ∧
      ((replaceAll before [] 0 s).length = o.length →
        ∀ r, Behind before s r → ¬ before <+: r) := by
  induction h with
  | @stop s hs =>
    rw [replaceAll_eq_self hs]
    exact ⟨le_rfl, fun _ r hr => absurd hr.isInfix hs⟩
  | @found s u r' o hfirst _ ih =>
    rw [replaceAll_first hb hfirst, List.nil_append, List.nil_append]
    rw [List.nil_append] at ih
    have hbehind (hr' : ¬ before <+: r')
        (hnext : ∀ r, Behind before r' r → ¬ before <+: r) :
        ∀ r, Behind before s r → ¬ before <+: r := by
      intro r hr
      cases hr with
      | found h => exact (h.unique hfirst).2 ▸ hr'
      | next h h' => exact hnext r ((h.unique hfirst).2 ▸ h')
    cases r' with
    | nil =>
      refine ⟨by simp [replaceAll], fun _ => hbehind ?_ ?_⟩
      · rwa [List.prefix_nil]
      · intro r hr
        exact absurd (List.infix_nil.1 hr.isInfix) hb
    | cons c w =>
      rw [List.drop_succ_cons, List.drop_zero] at ih
      rw [List.take_succ_cons, List.take_zero, List.length_append, List.length_append,
        List.length_append, List.length_singleton]
      by_cases hp : before <+: c :: w
      · have htail : before.tail.length < before.length := by
          rw [List.length_tail]
          have := List.length_pos_iff.2 hb
          omega
        obtain ⟨r₁, hr₁⟩ := hp
        have hw : w = before.tail ++ r₁ := by
          have h := congrArg List.tail hr₁
          rwa [List.tail_append_of_ne_nil hb, List.tail_cons, eq_comm] at h
        have hmissed := ih.1
        rw [hw, replaceAll_noStart (noStart_of_suffix hover List.prefix_rfl
          (List.tail_suffix before) htail r₁), List.length_append, List.length_tail] at hmissed
        rw [← hr₁, replaceAll_append hb, List.nil_append]
        exact ⟨by omega, fun h => by omega⟩
      · rw [replaceAll_cons hp, List.length_cons]
        refine ⟨by omega, fun h => hbehind hp fun r hr => ?_⟩
        exact ih.2 (by omega) r (hr.of_cons hp)

/-- If the result is right, and `after` is no start of `before` or the texts
    cannot overlap themselves, the search has met no occurrence that starts in an
    inserted text. -/
theorem Replaces.resumes (hb : before ≠ []) (hba : ¬ before <:+: after)
    (hab : ¬ after <+: before ∨ ¬ SelfOverlaps (if after = [] then before else after))
    (h : Replaces before after src (replaceAll before after 0 src)) :
    ∀ r, Behind before src r → Resumes before after r := by
  intro r hr
  cases after with
  | nil =>
    have hover := hab.resolve_left fun h => h List.nil_prefix
    rw [if_pos rfl] at hover
    exact (h.length_le hb hover).2 rfl r hr
  | cons c t =>
    by_cases hpre : c :: t <+: before
    · have hover := hab.resolve_left fun h => h hpre
      rw [if_neg (List.cons_ne_nil c t)] at hover
      exact noStart_of_suffix hover hpre (List.suffix_cons c t) (Nat.lt_succ_self _) r
    · generalize hx : replaceAll before (c :: t) 0 src = x at h
      cases h with
      | stop hs => exact absurd hr.isInfix hs
      | @found s u r' o hfirst hrest =>
        rw [replaceAll_first hb hfirst, List.append_cancel_left_eq] at hx
        have ho : o = t ++ replaceAll before (c :: t) 0 r' := (List.cons.inj hx).2.symm
        obtain ⟨hstart, hbehind⟩ := hrest.noStart hpre (fun h => hba h.isInfix) r' rfl ho
        cases hr with
        | found h => exact (h.unique hfirst).2 ▸ hstart
        | next h h' => exact hbehind r ((h.unique hfirst).2 ▸ h')

/-- **When `ReplaceStr` replaces from left to right.** -/
theorem replaceStr_replaceAll (hb : before ≠ []) (hba : ¬ before <:+: after) (src : Str) :
    ((∀ r, Behind before src r → Resumes before after r) →
      ∃ n, replaceStr n src before after = some (replaceAll before after 0 src)) ∧
    (¬ after <+: before ∨ ¬ SelfOverlaps (if after = [] then before else after) →
      (∃ n, replaceStr n src before after = some (replaceAll before after 0 src)) →
      ∀ r, Behind before src r → Resumes before after r) := by
  constructor
  · intro hclean
    have ha : ¬ before <:+: after.tail := fun h => hba (h.trans (List.tail_suffix after).isInfix)
    obtain ⟨n, hn⟩ := replaceStr_returns hb ha src
    obtain ⟨x, hx⟩ := Option.ne_none_iff_exists'.1 hn
    have h := (replaces_of_replaceStr hb hx).eq_replaceAll hb [] src rfl noStart_nil hclean
    exact ⟨n, hx.trans (congrArg some h)⟩
  · rintro hab ⟨n, hn⟩
    exact (replaces_of_replaceStr hb hn).resumes hb hba hab

/-- In `bxb`, nothing of what `a` is replaced by is looked at again. -/
theorem replaceStr_replaceAll_once :
    ∃ n, replaceStr n [97, 120, 97] [97] [98, 98] = some [98, 98, 120, 98, 98] := by
  refine (@replaceStr_replaceAll [97] [98, 98] (by decide) (by decide) [97, 120, 97]).1 ?_
  intro r _ i hi
  obtain rfl : i = 0 := Nat.lt_one_iff.1 hi
  intro h
  exact absurd (List.cons_prefix_cons.1 h).1 (by decide)

/-- `aa` deleted in `aaaa`: the second one is left, because the search goes on
    at the second character of what follows the first one. -/
theorem replaceStr_aaaa : replaceStr 2 [97, 97, 97, 97] [97, 97] [] = some [97, 97] ∧
    replaceAll [97, 97] [] 0 [(97 : UInt8), 97, 97, 97] = [] := by
  decide

end CppExperiment.StringFunc
