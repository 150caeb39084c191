/-
  `str::ParseIncludedOneItem` (CommonTools/StringFunc.cc): the text between two
  texts, here the value of a record behind `key` and a delimiter.

  * `parseIncludedOneItem_eq`: the value of the first pair whose key ends with
    `key` is found.
  * `parseIncludedOneItem_iff`: when this is the value that is stored under the
    key, and when `ParseIncludedStrByMark` returns the same.
-/
import CppExperiment.StringFunc.Chars
import CppExperiment.StringFunc.Included

namespace CppExperiment.StringFunc
open StdString

/-- `ParseIncludedOneItem(src, lKey, rKey)` -/
def parseIncludedOneItem (src lKey rKey : Str) : Option Str :=
  match findStr src lKey with
  | none => some []
  | some lhs =>
    let lhs := lhs + lKey.length
    match findStrFrom src rKey lhs with
    | none => some []
    | some rhs => substr src lhs (sizeSub rhs lhs)

/-- The key of the pair ends with `k`. -/
def endsIn (k : Str) (p : Str × Str) : Bool := k.isSuffixOf p.1

variable {delim1 delim2 : UInt8} {src k v key value r t u : Str} {p : Str × Str}
  {ps pre post : List (Str × Str)}

theorem endsIn_iff : endsIn k p = true ↔ k <:+ p.1 := List.isSuffixOf_iff_suffix

/-! ## The first key that ends with `k` -/

/-- The key that ends with `k`, with its delimiter. -/
theorem first_endsIn (hkey : delim1 ∉ u ++ k) (r : Str) :
    First (k ++ [delim1]) (u ++ k ++ delim1 :: r) u r := by
  refine ⟨by simp, ?_⟩
  intro i hi hp
  have hdrop : (u ++ (k ++ [delim1] ++ r)).drop i = (u.drop i ++ k) ++ delim1 :: r := by
    rw [List.drop_append_of_le_length hi.le]
    simp
  have hk : delim1 ∉ k := fun h => hkey (List.mem_append_right u h)
  have hfront : delim1 ∉ u.drop i ++ k := by
    rw [List.mem_append, not_or]
    exact ⟨fun h => hkey (List.mem_append_left k (List.mem_of_mem_drop h)), hk⟩
  rw [hdrop] at hp
  have hlen := congrArg List.length (prefix_concat hk hfront hp).1
  rw [List.length_append, List.length_drop] at hlen
  omega

/-- Nothing is found in a pair whose key does not end with `k`. -/
theorem noStart_pair (hd : delim1 ≠ delim2) (hp : Free delim1 delim2 (key, value))
    (h1 : delim1 ∉ k) (h2 : delim2 ∉ k) (hk : ¬ k <:+ key) (r : Str) :
    NoStart (k ++ [delim1]) ((key ++ [delim1]) ++ (value ++ [delim2])) r := by
  obtain ⟨⟨hkey, -⟩, hvalue, -⟩ := hp
  refine NoStart.append ?_ ?_
  · intro i hi hpre
    rw [List.length_append, List.length_singleton] at hi
    have hdrop : (key ++ [delim1] ++ ((value ++ [delim2]) ++ r)).drop i =
        key.drop i ++ delim1 :: ((value ++ [delim2]) ++ r) := by
      rw [List.append_assoc, List.drop_append_of_le_length (Nat.le_of_lt_succ hi)]
      rfl
    rw [hdrop] at hpre
    have heq := (prefix_concat h1 (fun h => hkey (List.mem_of_mem_drop h)) hpre).1
    exact hk (heq ▸ List.drop_suffix i key)
  · intro i hi hpre
    rw [List.length_append, List.length_singleton] at hi
    rw [List.append_assoc, List.drop_append_of_le_length (Nat.le_of_lt_succ hi)] at hpre
    exact hd (prefix_concat h2 (fun h => hvalue (List.mem_of_mem_drop h)) hpre).2.symm

/-! ## `ParseIncludedOneItem` -/

/-- The value behind the first occurrence. -/
theorem parseIncludedOneItem_first {lKey : Str} (hv : delim2 ∉ v)
    (h : First lKey src u (v ++ delim2 :: r)) :
    parseIncludedOneItem src lKey [delim2] = some v := by
  have hlen := congrArg List.length h.eq
  simp only [List.length_append] at hlen
  have hbehind : src.drop (u.length + lKey.length) = v ++ delim2 :: r := by
    rw [h.eq, ← List.drop_drop, List.drop_left, List.drop_left]
  have hrhs : findStrFrom src [delim2] (u.length + lKey.length) =
      some (u.length + lKey.length + v.length) := by
    rw [findStrFrom, if_pos (by omega), hbehind, findStr_first (first_singleton hv r),
      Option.map_some]
  have hsize : sizeSub (u.length + lKey.length + v.length) (u.length + lKey.length) =
      v.length := by
    rw [sizeSub, if_pos (Nat.le_add_right _ _), Nat.add_sub_cancel_left]
  rw [parseIncludedOneItem, findStr_first h]
  dsimp only
  rw [hrhs]
  dsimp only
  rw [hsize, substr, if_pos (by omega), hbehind, List.take_left]

/-- The pair that is found in a record; nothing starts in `t`, which stands in
    front. -/
theorem parseIncludedOneItem_append (hd : delim1 ≠ delim2) (hps : ∀ p ∈ ps, Free delim1 delim2 p)
    (h1 : delim1 ∉ k) (h2 : delim2 ∉ k)
    (ht : NoStart (k ++ [delim1]) t (recordText delim1 delim2 ps)) :
    parseIncludedOneItem (t ++ recordText delim1 delim2 ps) (k ++ [delim1]) [delim2] =
      some (((ps.find? (endsIn k)).map Prod.snd).getD []) := by
  induction ps generalizing t with
  | nil =>
    have hnot : ¬ k ++ [delim1] <:+: t ++ recordText delim1 delim2 [] := by
      rw [recordText, List.flatMap_nil, List.append_nil]
      exact ht.notInfix (by simp)
    rw [parseIncludedOneItem, findStr_notInfix hnot]
    rfl
  | cons p ps ih =>
    obtain ⟨key, value⟩ := p
    obtain ⟨hp, hps⟩ := List.forall_mem_cons.1 hps
    by_cases hk : k <:+ key
    · obtain ⟨u, rfl⟩ := hk
      have hfound : endsIn k (u ++ k, value) = true := endsIn_iff.2 ⟨u, rfl⟩
      rw [recordText_cons] at ht ⊢
      rw [List.find?_cons_of_pos hfound]
      exact parseIncludedOneItem_first hp.2.2 ((first_endsIn hp.1.1 _).noStart_append ht)
    · have hnot : ¬ endsIn k (key, value) = true := mt endsIn_iff.1 hk
      have htext : recordText delim1 delim2 ((key, value) :: ps) =
          ((key ++ [delim1]) ++ (value ++ [delim2])) ++ recordText delim1 delim2 ps := by
        rw [recordText_cons]
        simp
      rw [htext] at ht ⊢
      rw [List.find?_cons_of_neg hnot, ← List.append_assoc t]
      exact ih hps (ht.append (noStart_pair hd hp h1 h2 hk _))

/-- **The value that is found** in a record. -/
theorem parseIncludedOneItem_eq (hd : delim1 ≠ delim2) (hps : ∀ p ∈ ps, Free delim1 delim2 p)
    (h1 : delim1 ∉ k) (h2 : delim2 ∉ k) :
    parseIncludedOneItem (recordText delim1 delim2 ps) (k ++ [delim1]) [delim2] =
      some (((ps.find? (endsIn k)).map Prod.snd).getD []) :=
  parseIncludedOneItem_append hd hps h1 h2 noStart_nil

/-- **When the value for a key is found.**  It is returned unless an earlier key
    ends with this one and has another value; and where the mark alone is in no
    earlier key, and in no earlier value but the last, `ParseIncludedStrByMark`
    returns the same. -/
theorem parseIncludedOneItem_iff (hd : delim1 ≠ delim2)
    (hps : ∀ p ∈ pre ++ (k, v) :: post, Free delim1 delim2 p) :
    (parseIncludedOneItem (recordText delim1 delim2 (pre ++ (k, v) :: post)) (k ++ [delim1])
        [delim2] = some v ↔ ∀ p ∈ pre.find? (endsIn k), p.2 = v) ∧
    ((∀ p ∈ pre, ¬ k <:+: p.1) → (∀ p ∈ pre.dropLast, ¬ k <:+: p.2) →
      parseIncludedOneItem (recordText delim1 delim2 (pre ++ (k, v) :: post)) (k ++ [delim1])
          [delim2] =
        parseIncludedStrByMark (recordText delim1 delim2 (pre ++ (k, v) :: post)) delim1 delim2
          k) := by
  obtain ⟨⟨h1, h2⟩, -⟩ := hps (k, v) (by simp)
  have hself : endsIn k (k, v) = true := endsIn_iff.2 List.suffix_rfl
  rw [parseIncludedOneItem_eq hd hps h1 h2, List.find?_append, List.find?_cons_of_pos hself]
  constructor
  · cases pre.find? (endsIn k) with
    | none => simp
    | some p => simp
  · intro hkey hvalue
    have hnone : pre.find? (endsIn k) = none := by
      rw [List.find?_eq_none]
      exact fun p hp h => hkey p hp (endsIn_iff.1 h).isInfix
    have hne : pre ++ (k, v) :: post ≠ [] := by simp
    have hmark := parseIncludedStrByMark_append hd hps (.inr hne) h1 h2 noStart_nil
    rw [List.nil_append, marked_eq pre post hkey hvalue] at hmark
    rw [hmark, hnone]
    rfl

/-- The record `x:a;ab:y;` with the key `ab`. -/
theorem parseIncludedOneItem_iff_colon :
    parseIncludedOneItem [120, 58, 97, 59, 97, 98, 58, 121, 59] [97, 98, 58] [59] = some [121] ∧
      parseIncludedOneItem [120, 58, 97, 59, 97, 98, 58, 121, 59] [97, 98, 58] [59] =
        parseIncludedStrByMark [120, 58, 97, 59, 97, 98, 58, 121, 59] 58 59 [97, 98] := by
  obtain ⟨hfound, hmark⟩ := @parseIncludedOneItem_iff 58 59 [97, 98] [121] [([120], [97])] []
    (by decide) (by unfold Free; decide)
  exact ⟨hfound.2 (by decide), hmark (by decide) (by decide)⟩

end CppExperiment.StringFunc
