/-
  Texts that can be told apart when they are sent one after the other.

  `uniquelyDecodable_of_start`: a set of texts is uniquely decodable if all of
  them start with the same letter, and no text continues another one with this
  letter; a text may well be the start of another one.  `flatMap_eq_iff`: then
  the sequence of texts can be read off what was sent.
-/
import Mathlib

namespace CppExperiment
open InformationTheory

variable {α κ : Type*} {S : Set (List α)} {a : α}

/-- Texts in a sequence start with the letter `a`. -/
theorem head_flatten (hstart : ∀ w ∈ S, w.head? = some a) {L : List (List α)}
    (hL : ∀ w ∈ L, w ∈ S) (hne : L.flatten ≠ []) : L.flatten.head? = some a := by
  cases L with
  | nil => exact absurd rfl hne
  | cons w L =>
    have hw := hstart w (hL w List.mem_cons_self)
    rw [List.flatten_cons, List.head?_append, hw, Option.some_or]

/-- A text that a sequence continues with another sequence is at its end. -/
theorem eq_of_append_eq (hstart : ∀ w ∈ S, w.head? = some a)
    (hext : ∀ w ∈ S, ∀ v ∈ S, ¬ w ++ [a] <+: v) {w x : List α} (hw : w ∈ S) (hv : w ++ x ∈ S)
    {L r : List (List α)} (hL : ∀ w ∈ L, w ∈ S) (h : L.flatten = x ++ r.flatten) : x = [] := by
  cases x with
  | nil => rfl
  | cons b x =>
    have hb : L.flatten.head? = some b := by rw [h]; rfl
    have ha := head_flatten hstart hL (by rw [h]; exact List.cons_ne_nil _ _)
    cases ha.symm.trans hb
    exact absurd ⟨x, by rw [List.append_assoc, List.singleton_append]⟩ (hext w hw _ hv)

/-- **Texts with a common start.** -/
theorem uniquelyDecodable_of_start (hstart : ∀ w ∈ S, w.head? = some a)
    (hext : ∀ w ∈ S, ∀ v ∈ S, ¬ w ++ [a] <+: v) : UniquelyDecodable S := by
  have hne : ∀ w ∈ S, w ≠ [] := by
    rintro w hw rfl
    cases hstart _ hw
  intro L
  induction L with
  | nil =>
    intro M _ hM h
    cases M with
    | nil => rfl
    | cons v M =>
      rw [List.flatten_nil, List.flatten_cons] at h
      exact absurd (List.append_eq_nil_iff.1 h.symm).1 (hne v (hM v List.mem_cons_self))
  | cons w L ih =>
    intro M hL hM h
    cases M with
    | nil =>
      rw [List.flatten_nil, List.flatten_cons] at h
      exact absurd (List.append_eq_nil_iff.1 h).1 (hne w (hL w List.mem_cons_self))
    | cons v M =>
      obtain ⟨hw, hL'⟩ := List.forall_mem_cons.1 hL
      obtain ⟨hv, hM'⟩ := List.forall_mem_cons.1 hM
      rw [List.flatten_cons, List.flatten_cons] at h
      -- one of the two first texts is the start of the other
      rcases List.append_eq_append_iff.1 h with ⟨x, rfl, hx⟩ | ⟨x, rfl, hx⟩
      · have := eq_of_append_eq hstart hext hw hv hL' hx
        subst this
        rw [List.append_nil, ih M hL' hM' (by simpa using hx)]
      · have := eq_of_append_eq hstart hext hv hw hM' hx
        subst this
        rw [List.append_nil, ih M hL' hM' (by simpa using hx.symm)]

/-- The sequence of the texts can be read off. -/
theorem flatMap_eq_iff {text : κ → List α} (hinj : Function.Injective text)
    (hS : UniquelyDecodable (Set.range text)) {ks ls : List κ} :
    ks.flatMap text = ls.flatMap text ↔ ks = ls := by
  constructor
  · intro h
    have hmem : ∀ (ks : List κ), ∀ w ∈ ks.map text, w ∈ Set.range text := by
      intro ks w hw
      obtain ⟨k, -, rfl⟩ := List.mem_map.1 hw
      exact ⟨k, rfl⟩
    rw [List.flatMap_def, List.flatMap_def] at h
    exact hinj.list_map (hS _ _ (hmem ks) (hmem ls) h)
  · rintro rfl
    rfl

end CppExperiment
