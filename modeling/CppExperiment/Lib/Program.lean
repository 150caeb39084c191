/-
  Programs that call their environment.

  A program is a tree: it returns, makes a call and goes on with the answer, or
  has undefined behaviour.  What the environment answers, and what becomes of
  it, is a relation `H w c x w'`: in the state `w` the call `c` may be answered
  by `x`, which leaves the state `w'`.

  * `Exec H w p r w'`: an execution of `p`; its result `r` is `none` after
    undefined behaviour.
  * `wp H p Q w`: every execution of `p` from `w` is defined and its result
    meets `Q`.  `wp_pure`, `wp_ask`, `wp_bind` and `wp_mono` are its rules.
  * `wlp H p Q w`: every execution of `p` from `w` that is defined meets `Q`,
    with the same rules.
  * `record`: the environment that answers anything and records the calls with
    their answers.
-/
import Mathlib

namespace CppExperiment

universe u v

/-- A program with calls `C`, answered in `A`. -/
inductive Prog (C : Type u) (A : C → Type v) (α : Type v) : Type (max u v)
  | ret (a : α)
  | call (c : C) (k : A c → Prog C A α)
  | ub

namespace Prog
variable {C : Type u} {A : C → Type v} {α β : Type v} {W : Type*}

/-- One program after another. -/
def bind : Prog C A α → (α → Prog C A β) → Prog C A β
  | ret a, f => f a
  | call c k, f => call c fun x => (k x).bind f
  | ub, _ => ub

instance : Monad (Prog C A) where
  pure := ret
  bind := bind

/-- A single call. -/
def ask (c : C) : Prog C A (A c) := call c ret

/-- An execution, from and to a state of the environment. -/
inductive Exec (H : W → (c : C) → A c → W → Prop) : W → Prog C A α → Option α → W → Prop
  | ret {w : W} {a : α} : Exec H w (ret a) (some a) w
  | call {w w' w'' : W} {c : C} {x : A c} {k : A c → Prog C A α} {r : Option α} :
      H w c x w' → Exec H w' (k x) r w'' → Exec H w (call c k) r w''
  | ub {w : W} : Exec H w ub none w

/-- Every execution is defined and meets `Q`. -/
def wp (H : W → (c : C) → A c → W → Prop) (p : Prog C A α) (Q : α → W → Prop) (w : W) : Prop :=
  ∀ r w', Exec H w p r w' → ∃ a, r = some a ∧ Q a w'

/-- Every execution that is defined meets `Q`. -/
def wlp (H : W → (c : C) → A c → W → Prop) (p : Prog C A α) (Q : α → W → Prop) (w : W) : Prop :=
  ∀ a w', Exec H w p (some a) w' → Q a w'

variable {H : W → (c : C) → A c → W → Prop} {p : Prog C A α} {f : α → Prog C A β}
  {Q Q' : α → W → Prop} {w w' w'' : W}

/-! ## Executions -/

theorem exec_pure {a : α} : Exec H w (pure a) (some a) w := .ret

theorem exec_ask {c : C} {x : A c} (h : H w c x w') : Exec H w (ask c) (some x) w' :=
  .call h .ret

/-- Executions one after the other. -/
theorem exec_bind {a : α} {r : Option β} (hp : Exec H w p (some a) w')
    (hf : Exec H w' (f a) r w'') : Exec H w (p >>= f) r w'' := by
  change Exec H w (p.bind f) r w''
  induction p generalizing w with
  | ret b => cases hp; exact hf
  | call c k ih =>
    cases hp with
    | call hc hk => exact .call hc (ih _ hk)
  | ub => cases hp

/-- An execution of two programs, taken apart. -/
theorem exec_bind_inv {r : Option β} (h : Exec H w (p >>= f) r w'') :
    (∃ a w', Exec H w p (some a) w' ∧ Exec H w' (f a) r w'') ∨
      (r = none ∧ Exec H w p none w'') := by
  change Exec H w (p.bind f) r w'' at h
  induction p generalizing w with
  | ret b => exact .inl ⟨b, w, .ret, h⟩
  | call c k ih =>
    cases h with
    | call hc hk =>
      rcases ih _ hk with ⟨a, w', h1, h2⟩ | ⟨hr, h1⟩
      · exact .inl ⟨a, w', .call hc h1, h2⟩
      · exact .inr ⟨hr, .call hc h1⟩
  | ub => cases h; exact .inr ⟨rfl, .ub⟩

/-! ## Rules -/

theorem wp_pure {a : α} (h : Q a w) : wp H (pure a) Q w := by
  intro r w' he
  cases he
  exact ⟨a, rfl, h⟩

theorem wp_ask {c : C} {Q : A c → W → Prop} (h : ∀ x w', H w c x w' → Q x w') :
    wp H (ask c) Q w := by
  intro r w'' he
  cases he with
  | call hc hk => cases hk; exact ⟨_, rfl, h _ _ hc⟩

theorem wp_bind {Q : β → W → Prop} (h : wp H p (fun a w' => wp H (f a) Q w') w) :
    wp H (p >>= f) Q w := by
  intro r w'' he
  rcases exec_bind_inv he with ⟨a, w', h1, h2⟩ | ⟨-, h1⟩
  · obtain ⟨b, hb, hq⟩ := h _ _ h1
    cases hb
    exact hq r w'' h2
  · obtain ⟨b, hb, -⟩ := h _ _ h1
    cases hb

/-- A program that starts with a call. -/
theorem wp_ask_bind_iff {c : C} {k : A c → Prog C A β} {Q : β → W → Prop} :
    wp H (ask c >>= k) Q w ↔ ∀ x w', H w c x w' → wp H (k x) Q w' := by
  constructor
  · intro h x w' hx r w'' he
    exact h r w'' (exec_bind (exec_ask hx) he)
  · intro h
    exact wp_bind (wp_ask h)

theorem wp_ask_bind {c : C} {k : A c → Prog C A β} {Q : β → W → Prop}
    (h : ∀ x w', H w c x w' → wp H (k x) Q w') : wp H (ask c >>= k) Q w :=
  wp_ask_bind_iff.2 h

theorem wp_mono (h : wp H p Q w) (hQ : ∀ a w', Q a w' → Q' a w') : wp H p Q' w := by
  intro r w' he
  obtain ⟨a, ha, hq⟩ := h r w' he
  exact ⟨a, ha, hQ a w' hq⟩

/-! ## Rules for the executions that are defined -/

theorem wlp_pure {a : α} (h : Q a w) : wlp H (pure a) Q w := by
  intro b w' he
  cases he
  exact h

theorem wlp_ask {c : C} {Q : A c → W → Prop} (h : ∀ x w', H w c x w' → Q x w') :
    wlp H (ask c) Q w := by
  intro a w'' he
  cases he with
  | call hc hk => cases hk; exact h _ _ hc

theorem wlp_ub : wlp H (ub : Prog C A α) Q w := nofun

theorem wlp_bind {Q : β → W → Prop} (h : wlp H p (fun a w' => wlp H (f a) Q w') w) :
    wlp H (p >>= f) Q w := by
  intro b w'' he
  rcases exec_bind_inv he with ⟨a, w', h1, h2⟩ | ⟨hb, -⟩
  · exact h a w' h1 b w'' h2
  · cases hb

theorem wlp_ask_bind {c : C} {k : A c → Prog C A β} {Q : β → W → Prop}
    (h : ∀ x w', H w c x w' → wlp H (k x) Q w') : wlp H (ask c >>= k) Q w :=
  wlp_bind (wlp_ask h)

theorem wlp_mono (h : wlp H p Q w) (hQ : ∀ a w', Q a w' → Q' a w') : wlp H p Q' w :=
  fun a w' he => hQ a w' (h a w' he)

theorem wlp_of_wp (h : wp H p Q w) : wlp H p Q w := by
  intro a w' he
  obtain ⟨b, hb, hq⟩ := h _ _ he
  cases hb
  exact hq

/-! ## Recorded calls -/

/-- The environment that records its calls, the latest last. -/
def record (w : List ((c : C) × A c)) (c : C) (x : A c) (w' : List ((c : C) × A c)) : Prop :=
  w' = w ++ [⟨c, x⟩]

/-- An execution only adds to the record. -/
theorem prefix_of_exec {w w' : List ((c : C) × A c)} {r : Option α} (h : Exec record w p r w') :
    w <+: w' := by
  induction h with
  | ret => exact List.prefix_rfl
  | call hc _ ih =>
    rw [record] at hc
    subst hc
    exact (List.prefix_append _ _).trans ih
  | ub => exact List.prefix_rfl

/-- A program that starts with the call `c` records it first. -/
theorem exec_ask_bind_record {c : C} {k : A c → Prog C A α} {w' : List ((c : C) × A c)}
    {r : Option α} (h : Exec record [] (ask c >>= k) r w') : ∃ x es, w' = ⟨c, x⟩ :: es := by
  cases h with
  | @call _ _ _ _ x _ _ hc hk =>
    rw [record] at hc
    subst hc
    obtain ⟨es, rfl⟩ := prefix_of_exec hk
    exact ⟨x, es, rfl⟩

end Prog

end CppExperiment
