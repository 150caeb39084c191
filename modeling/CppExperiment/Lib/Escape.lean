/-
  Escape codes: a special character is written as an escape character and a
  letter, any other character as itself.

  * `EscapeCode` carries what makes such a code readable: the escape character
    is itself special, and the letter gives back its character.
  * `unescape_escape`: reading undoes writing, for any text; `mem_escape` tells
    which characters a written text has.
  * `escape_append_inj`: a special character tells where a written text ends.
  * `unescape_take_prefix_iff`: a written text that is cut off is read as a
    start of the text, unless the cut tears a pair whose character is not the
    escape character.
-/
import CppExperiment.Lib.Fit

namespace CppExperiment

/-- The letter that `enc` gives a special character is read back by `dec`. -/
structure EscapeCode (α : Type*) where
  /-- the escape character -/
  esc : α
  enc : α → Option α
  dec : α → Option α
  enc_esc : enc esc ≠ none
  dec_enc : ∀ c l, enc c = some l → dec l = some c

namespace EscapeCode
variable {α : Type*} (E : EscapeCode α)

/-- Write a text. -/
def escape : List α → List α
  | [] => []
  | c :: s =>
    match E.enc c with
    | some l => E.esc :: l :: escape s
    | none => c :: escape s

/-- Read a text: an escape character at its end stands for itself, and so does
    one before an unknown letter, which is dropped. -/
def unescape [DecidableEq α] : List α → List α
  | [] => []
  | [c] => [c]
  | c :: d :: s =>
    if c = E.esc then (E.dec d).getD E.esc :: unescape s else c :: unescape (d :: s)

/-- The number of characters that one is written with. -/
def width (c : α) : ℕ :=
  match E.enc c with
  | some _ => 2
  | none => 1

/-- The first `k` characters of the written text end in the middle of the pair
    for `c`. -/
def CutsPair (s : List α) (k : ℕ) (c : α) : Prop :=
  E.enc c ≠ none ∧ ∃ u r, s = u ++ c :: r ∧ (E.escape u).length + 1 = k

variable {E} {c l x : α} {s : List α}

theorem escape_special (h : E.enc c = some l) : E.escape (c :: s) = E.esc :: l :: E.escape s := by
  rw [escape, h]

theorem escape_plain (h : E.enc c = none) : E.escape (c :: s) = c :: E.escape s := by
  rw [escape, h]

/-- A text without special characters. -/
theorem escape_eq_self (h : ∀ c ∈ s, E.enc c = none) : E.escape s = s := by
  induction s with
  | nil => rfl
  | cons c s ih =>
    obtain ⟨hc, hs⟩ := List.forall_mem_cons.1 h
    rw [escape_plain hc, ih hs]

theorem escape_append (s t : List α) : E.escape (s ++ t) = E.escape s ++ E.escape t := by
  induction s with
  | nil => rfl
  | cons c s ih =>
    rw [List.cons_append]
    cases hc : E.enc c with
    | none => rw [escape_plain hc, escape_plain hc, ih, List.cons_append]
    | some l => rw [escape_special hc, escape_special hc, ih, List.cons_append, List.cons_append]

/-- **Behind a written text** stands a special character other than the escape
    character: it is known where the text ends. -/
theorem escape_append_inj {d : α} {s' r r' : List α} (hd : E.enc d ≠ none) (hne : d ≠ E.esc)
    (h : E.escape s ++ d :: r = E.escape s' ++ d :: r') : s = s' ∧ r = r' := by
  have hend {c : α} {s r r' : List α} : d :: r ≠ E.escape (c :: s) ++ r' := by
    intro h
    cases hc : E.enc c with
    | none =>
      rw [escape_plain hc] at h
      obtain rfl : d = c := List.head_eq_of_cons_eq h
      exact hd hc
    | some l =>
      rw [escape_special hc] at h
      exact hne (List.head_eq_of_cons_eq h)
  induction s generalizing s' with
  | nil =>
    cases s' with
    | nil => exact ⟨rfl, List.tail_eq_of_cons_eq h⟩
    | cons c s' => exact absurd h hend
  | cons c s ih =>
    cases s' with
    | nil => exact absurd h.symm hend
    | cons c' s' =>
      cases hc : E.enc c with
      | none =>
        cases hc' : E.enc c' with
        | none =>
          rw [escape_plain hc, escape_plain hc', List.cons_append, List.cons_append,
            List.cons.injEq] at h
          exact (ih h.2).imp (fun hs => by rw [h.1, hs]) id
        | some l =>
          rw [escape_plain hc, escape_special hc'] at h
          obtain rfl : c = E.esc := List.head_eq_of_cons_eq h
          exact absurd hc E.enc_esc
      | some l =>
        cases hc' : E.enc c' with
        | none =>
          rw [escape_special hc, escape_plain hc'] at h
          obtain rfl : E.esc = c' := List.head_eq_of_cons_eq h
          exact absurd hc' E.enc_esc
        | some l' =>
          rw [escape_special hc, escape_special hc'] at h
          have htail := List.tail_eq_of_cons_eq h
          obtain rfl : l = l' := List.head_eq_of_cons_eq htail
          have hcc : some c = some c' := (E.dec_enc c l hc).symm.trans (E.dec_enc c' l hc')
          exact (ih (List.tail_eq_of_cons_eq htail)).imp
            (fun hs => by rw [Option.some_inj.1 hcc, hs]) id

theorem width_special (h : E.enc c = some l) : E.width c = 2 := by rw [width, h]

theorem width_plain (h : E.enc c = none) : E.width c = 1 := by rw [width, h]

theorem length_escape (s : List α) : (E.escape s).length = room E.width s := by
  induction s with
  | nil => rfl
  | cons c s ih =>
    rw [room_cons, ← ih]
    cases hc : E.enc c with
    | none => rw [escape_plain hc, width_plain hc, List.length_cons, Nat.add_comm]
    | some l => rw [escape_special hc, width_special hc, List.length_cons, List.length_cons]; omega

/-- What is left of a pair that is torn. -/
theorem take_pair (u r : List α) (h : E.enc c = some l) :
    (E.escape (u ++ c :: r)).take ((E.escape u).length + 1) = E.escape u ++ [E.esc] := by
  rw [escape_append, escape_special h, List.take_length_add_append]
  rfl

theorem CutsPair.cons {k : ℕ} (h : E.CutsPair s k c) (x : α) :
    E.CutsPair (x :: s) (E.width x + k) c := by
  obtain ⟨hc, u, r, rfl, rfl⟩ := h
  exact ⟨hc, x :: u, r, rfl, by rw [length_escape, length_escape, room_cons, Nat.add_assoc]⟩

/-- **A written text that is cut off**: the cut tears a pair, or leaves what is
    written of a start of the text. -/
theorem take_escape (s : List α) (k : ℕ) :
    (E.escape s).take k = E.escape (fit E.width k s) ∨ ∃ c, E.CutsPair s k c := by
  induction s generalizing k with
  | nil => exact .inl List.take_nil
  | cons c s ih =>
    cases hc : E.enc c with
    | none =>
      have hw := width_plain hc
      cases k with
      | zero => exact .inl (by rw [fit_cons_of_lt (by omega)]; rfl)
      | succ k =>
        rcases ih k with h | ⟨d, hd⟩
        · rw [fit_cons_of_le (by omega), hw, Nat.add_sub_cancel, escape_plain hc, escape_plain hc,
            List.take_succ_cons, h]
          exact .inl rfl
        · have := hd.cons c
          rw [hw, Nat.add_comm] at this
          exact .inr ⟨d, this⟩
    | some l =>
      have hw := width_special hc
      match k with
      | 0 => exact .inl (by rw [fit_cons_of_lt (by omega)]; rfl)
      | 1 =>
        have hne : E.enc c ≠ none := by rw [hc]; exact Option.some_ne_none l
        exact .inr ⟨c, hne, [], s, rfl, rfl⟩
      | k + 2 =>
        rcases ih k with h | ⟨d, hd⟩
        · rw [fit_cons_of_le (by omega), hw, Nat.add_sub_cancel, escape_special hc,
            escape_special hc, List.take_succ_cons, List.take_succ_cons, h]
          exact .inl rfl
        · have := hd.cons c
          rw [hw, Nat.add_comm] at this
          exact .inr ⟨d, this⟩

/-- The characters of a written text. -/
theorem mem_escape (hx : x ∈ E.escape s) :
    x = E.esc ∨ (∃ c ∈ s, E.enc c = some x) ∨ (x ∈ s ∧ E.enc x = none) := by
  induction s with
  | nil => cases hx
  | cons c s ih =>
    cases hc : E.enc c with
    | none =>
      rw [escape_plain hc, List.mem_cons] at hx
      rcases hx with rfl | hx
      · exact .inr (.inr ⟨List.mem_cons_self, hc⟩)
      · rcases ih hx with h | ⟨d, hd, h⟩ | ⟨h, h'⟩
        · exact .inl h
        · exact .inr (.inl ⟨d, List.mem_cons_of_mem _ hd, h⟩)
        · exact .inr (.inr ⟨List.mem_cons_of_mem _ h, h'⟩)
    | some l =>
      rw [escape_special hc, List.mem_cons, List.mem_cons] at hx
      rcases hx with rfl | rfl | hx
      · exact .inl rfl
      · exact .inr (.inl ⟨c, List.mem_cons_self, hc⟩)
      · rcases ih hx with h | ⟨d, hd, h⟩ | ⟨h, h'⟩
        · exact .inl h
        · exact .inr (.inl ⟨d, List.mem_cons_of_mem _ hd, h⟩)
        · exact .inr (.inr ⟨List.mem_cons_of_mem _ h, h'⟩)

variable [DecidableEq α]

theorem unescape_pair (d : α) :
    E.unescape (E.esc :: d :: s) = (E.dec d).getD E.esc :: E.unescape s := by
  rw [unescape, if_pos rfl]

theorem unescape_plain (h : c ≠ E.esc) : E.unescape (c :: s) = c :: E.unescape s := by
  cases s with
  | nil => rfl
  | cons d s => rw [unescape, if_neg h]

/-- A written text is read back, whatever stands behind it. -/
theorem unescape_escape_append (s t : List α) :
    E.unescape (E.escape s ++ t) = s ++ E.unescape t := by
  induction s with
  | nil => rfl
  | cons c s ih =>
    cases hc : E.enc c with
    | none =>
      have hne : c ≠ E.esc := fun h => E.enc_esc (h ▸ hc)
      rw [escape_plain hc, List.cons_append, unescape_plain hne, ih, List.cons_append]
    | some l =>
      rw [escape_special hc, List.cons_append, List.cons_append, unescape_pair,
        E.dec_enc c l hc, ih]
      rfl

/-- **Reading undoes writing.** -/
theorem unescape_escape (s : List α) : E.unescape (E.escape s) = s := by
  have h := unescape_escape_append (E := E) s []
  rwa [List.append_nil, unescape, List.append_nil] at h

/-- **Reading what is cut off**: a start of the text, iff the cut tears no pair
    but that of the escape character. -/
theorem unescape_take_prefix_iff (s : List α) (k : ℕ) :
    E.unescape ((E.escape s).take k) <+: s ↔ ∀ c, E.CutsPair s k c → c = E.esc := by
  constructor
  · rintro h c ⟨hc, u, r, rfl, rfl⟩
    obtain ⟨l, hl⟩ := Option.ne_none_iff_exists'.1 hc
    rw [take_pair u r hl, unescape_escape_append, List.prefix_append_right_inj] at h
    exact (List.cons_prefix_cons.1 h).1.symm
  · intro h
    rcases take_escape (E := E) s k with htake | ⟨c, hcut⟩
    · rw [htake, unescape_escape]
      exact fit_isPrefix _ _ _
    · have hesc := h c hcut
      obtain ⟨hc, u, r, rfl, rfl⟩ := hcut
      obtain ⟨l, hl⟩ := Option.ne_none_iff_exists'.1 hc
      rw [take_pair u r hl, unescape_escape_append, ← hesc]
      exact (List.prefix_append_right_inj u).2 (List.cons_prefix_cons.2 ⟨rfl, List.nil_prefix⟩)

theorem length_unescape_le (s : List α) : (E.unescape s).length ≤ s.length := by
  fun_induction E.unescape s with
  | case1 => exact le_rfl
  | case2 => exact le_rfl
  | case3 d s ih => rw [List.length_cons, List.length_cons, List.length_cons]; omega
  | case4 c d s h ih => rw [List.length_cons, List.length_cons]; omega

end EscapeCode

end CppExperiment
