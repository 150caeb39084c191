/-
  `TaskQueue<StringOnlyMove>` (Standard/std_attri/TestRvalue.hpp).

  `Insert` moves a task into the queue, `Get` moves the first one out of it.  The
  tasks in the queue are objects like those of the program.

  `fifo_of_run`: in every run, what `Get` has returned, and then what is in the
  queue, is what was inserted, in this order; and every buffer has one owner.
-/
import CppExperiment.SString.OnlyMove

namespace CppExperiment.SString

/-! ## What an operation leaves in the objects -/

variable {O B : Type} [DecidableEq O] [DecidableEq B] {w : World O B} {o rhs x : O}
  {L : Ledger O B}

omit [DecidableEq B] in
theorem holds_put (y : Option (StringOnlyMove B)) : (w.put o y).holds =
    Function.update w.holds o (y.join.map fun p => cstr (w.text p)) := by
  funext x
  rw [World.holds, data_put, Function.update_apply, Function.update_apply]
  split_ifs <;> rfl

omit [DecidableEq B] in
/-- The string moves from one object to the other. -/
theorem holds_moveInit (hne : o ≠ rhs) :
    (w.moveInit o rhs).holds =
      Function.update (Function.update w.holds o (w.holds rhs)) rhs none := by
  rw [World.moveInit]
  cases hd : w.data rhs with
  | none =>
    have hn : w.holds rhs = none := holds_eq_none.2 hd
    rw [if_pos rfl, holds_put, hn, Function.update_comm hne, ← hn, Function.update_eq_self, hn]
    rfl
  | some p =>
    have hs : w.holds rhs = some (cstr (w.text p)) := by rw [World.holds, hd]; rfl
    rw [if_neg (Option.some_ne_none p), holds_put, holds_put, hs]
    rfl

omit [DecidableEq B] in
theorem objects_moveInit (hr : w.objects rhs ≠ none) :
    (w.moveInit o rhs).objects x = none ↔ x ≠ o ∧ w.objects x = none := by
  rw [World.moveInit]
  split_ifs
  · simp only [World.put, Function.update_apply]
    split_ifs with hx
    · simp [hx]
    · simp [hx]
  · simp only [World.put, Function.update_apply]
    split_ifs with hx hx'
    · simp [hx, hr]
    · simp [hx']
    · simp [hx']

theorem Ledgered.holds_destroy (h : Ledgered w L) :
    (w.destroy o).holds = Function.update w.holds o none := by
  rw [World.destroy]
  cases hd : w.data o with
  | none => exact holds_put none
  | some p =>
    rw [Heap.delete_live (h.noDangling o p hd)]
    exact holds_put none

theorem Ledgered.objects_destroy (h : Ledgered w L) :
    (w.destroy o).objects = Function.update w.objects o none := by
  rw [World.destroy]
  cases hd : w.data o with
  | none => rfl
  | some p =>
    rw [Heap.delete_live (h.noDangling o p hd)]
    rfl

/-- A new buffer is not that of another object. -/
theorem Ledgered.holds_create (h : Ledgered w L) {p : B} {text : List UInt8}
    (hp : p ∉ w.heap.live) (hx : x ≠ o) : (w.create o p text).holds x = w.holds x := by
  have hd : (w.create o p text).data x = w.data x := by
    rw [data_create, Function.update_of_ne hx]
  rw [World.holds, World.holds, hd]
  cases hq : w.data x with
  | none => rfl
  | some q =>
    have hne : q ≠ p := fun hqp => hp (hqp ▸ h.noDangling x q hq)
    simp [World.create, Function.update_of_ne hne]

end CppExperiment.SString

namespace CppExperiment.StdAttri
open SString

variable {V B : Type} [DecidableEq V] [DecidableEq B]

/-- A queue of tasks, and the variables of the program.  The tasks in the queue
    are the objects `inl k` for `front ≤ k < back`. -/
structure TaskQueue (V B : Type) where
  world : World (ℕ ⊕ V) B
  front : ℕ
  back : ℕ

namespace TaskQueue

def init : TaskQueue V B := ⟨.init, 0, 0⟩

/-- `Insert(task)`: `tasks_.push(std::forward<T>(task))` -/
def insert (q : TaskQueue V B) (v : V) : TaskQueue V B :=
  { q with world := q.world.moveInit (.inl q.back) (.inr v), back := q.back + 1 }

/-- `v = Get()`: `T t = std::move(tasks_.front()); tasks_.pop(); return t;` -/
def get (q : TaskQueue V B) (v : V) : TaskQueue V B :=
  { q with
    world := (q.world.moveInit (.inr v) (.inl q.front)).destroy (.inl q.front)
    front := q.front + 1 }

/-- A step of the program. -/
inductive Action (V B : Type)
  /-- `StringOnlyMove v(text)` -/
  | construct (v : V) (p : B) (text : List UInt8)
  | insert (v : V)
  | get (v : V)
  | destroy (v : V)

/-- One step; `none` if the program does not do it: `Get` is called while there
    is a task. -/
def step (q : TaskQueue V B) : Action V B → Option (TaskQueue V B)
  | .construct v p text =>
    (SString.step q.world (.initStr (.inr v) p text)).map fun w => { q with world := w }
  | .insert v => if q.world.objects (.inr v) ≠ none then some (q.insert v) else none
  | .get v =>
    if q.world.objects (.inr v) = none ∧ q.front < q.back then some (q.get v) else none
  | .destroy v =>
    (SString.step q.world (.destroy (.inr v))).map fun w => { q with world := w }

/-- The tasks in the queue; `none` is a task that had been moved from. -/
def tasks (q : TaskQueue V B) : List (Option (List UInt8)) :=
  (List.range' q.front (q.back - q.front)).map fun k => q.world.holds (.inl k)

/-- What has been inserted. -/
def inserted (h : List (TaskQueue V B × Action V B)) : List (Option (List UInt8)) :=
  h.reverse.filterMap fun x => match x.2 with
    | .insert v => some (x.1.world.holds (.inr v))
    | _ => none

/-- What `Get` has returned. -/
def returned (h : List (TaskQueue V B × Action V B)) : List (Option (List UInt8)) :=
  h.reverse.filterMap fun x => match x.2 with
    | .get v => some ((x.1.get v).world.holds (.inr v))
    | _ => none

end TaskQueue

/-! ## Runs -/

namespace TaskQueue

variable {q t : TaskQueue V B} {h : List (TaskQueue V B × Action V B)} {a : Action V B}

omit [DecidableEq V] [DecidableEq B] in
/-- The tasks are those of the objects in the queue. -/
theorem tasks_congr {w : World (ℕ ⊕ V) B}
    (hw : ∀ k, q.front ≤ k → k < q.back → w.holds (.inl k) = q.world.holds (.inl k)) :
    tasks { q with world := w } = q.tasks := by
  refine List.map_congr_left fun k hk => ?_
  rw [List.mem_range'_1] at hk
  exact hw k hk.1 (by dsimp only at hk; omega)

omit [DecidableEq V] [DecidableEq B] in
theorem inserted_cons : inserted ((q, a) :: h) = inserted h ++ match a with
    | .insert v => [q.world.holds (.inr v)]
    | _ => [] := by
  unfold inserted
  rw [List.reverse_cons, List.filterMap_append]
  congr 1
  cases a <;> rfl

theorem returned_cons : returned ((q, a) :: h) = returned h ++ match a with
    | .get v => [(q.get v).world.holds (.inr v)]
    | _ => [] := by
  unfold returned
  rw [List.reverse_cons, List.filterMap_append]
  congr 1
  cases a <;> rfl

/-- The queue has served the run. -/
structure Serves (h : List (TaskQueue V B × Action V B)) (q : TaskQueue V B) : Prop where
  ledgered : ∃ L, Ledgered q.world L
  slots : ∀ k, q.world.objects (.inl k) = none ↔ ¬ (q.front ≤ k ∧ k < q.back)
  le : q.front ≤ q.back
  order : returned h ++ q.tasks = inserted h

theorem serves_insert {v : V} (hs : Serves h q) (hv : q.world.objects (.inr v) ≠ none) :
    Serves ((q, .insert v) :: h) (q.insert v) := by
  obtain ⟨L, hL⟩ := hs.ledgered
  have hback : q.world.objects (.inl q.back) = none := (hs.slots _).2 (by omega)
  have hne : (.inl q.back : ℕ ⊕ V) ≠ .inr v := by simp
  have hholds : (q.insert v).world.holds = _ := holds_moveInit hne
  constructor
  · exact hL.moveInit (data_eq_none hback)
  · intro k
    have hle := hs.le
    rw [insert, objects_moveInit hv, hs.slots]
    simp only [ne_eq, Sum.inl.injEq]
    omega
  · exact hs.le.trans (Nat.le_succ _)
  · rw [returned_cons, inserted_cons, List.append_nil, ← hs.order, List.append_assoc]
    congr 1
    have hlen : q.back + 1 - q.front = q.back - q.front + 1 := by have := hs.le; omega
    change (List.range' q.front (q.back + 1 - q.front)).map _ = _
    rw [hlen, List.range'_concat, List.map_append]
    congr 1
    · refine List.map_congr_left fun k hk => ?_
      rw [List.mem_range'_1] at hk
      have hk' : k ≠ q.back := by omega
      rw [hholds]
      simp [hk']
    · have hlast : q.front + 1 * (q.back - q.front) = q.back := by have := hs.le; omega
      rw [List.map_singleton, hlast, hholds]
      simp

theorem serves_get {v : V} (hs : Serves h q) (hv : q.world.objects (.inr v) = none)
    (hlt : q.front < q.back) : Serves ((q, .get v) :: h) (q.get v) := by
  obtain ⟨L, hL⟩ := hs.ledgered
  have hfront : q.world.objects (.inl q.front) ≠ none := fun h0 =>
    (hs.slots _).1 h0 ⟨le_rfl, hlt⟩
  obtain ⟨L', hL'⟩ := hL.moveInit (data_eq_none hv)
  have hholds : (q.get v).world.holds = Function.update (Function.update (Function.update
      q.world.holds (.inr v) (q.world.holds (.inl q.front))) (.inl q.front) none)
      (.inl q.front) none := by
    rw [get, hL'.holds_destroy, holds_moveInit (by simp)]
  constructor
  · exact hL'.destroy _
  · intro k
    rw [get]
    dsimp only
    rw [hL'.objects_destroy, Function.update_apply]
    split_ifs with hk
    · simp only [Sum.inl.injEq] at hk
      simp [hk]
    · rw [objects_moveInit hfront, hs.slots]
      simp only [Sum.inl.injEq] at hk
      simp only [ne_eq, reduceCtorEq, not_false_eq_true, true_and]
      omega
  · exact hlt
  · rw [returned_cons, inserted_cons, List.append_nil, ← hs.order, List.append_assoc]
    congr 1
    have hlen : q.back - q.front = q.back - (q.front + 1) + 1 := by omega
    have htasks : q.tasks = q.world.holds (.inl q.front) ::
        (List.range' (q.front + 1) (q.back - (q.front + 1))).map fun k =>
          q.world.holds (.inl k) := by
      rw [tasks, hlen, List.range'_succ, List.map_cons]
    rw [htasks]
    dsimp only
    rw [hholds, List.singleton_append]
    congr 1
    · simp
    · change (List.range' (q.front + 1) (q.back - (q.front + 1))).map _ = _
      refine List.map_congr_left fun k hk => ?_
      rw [List.mem_range'_1] at hk
      have hk' : k ≠ q.front := by omega
      rw [hholds]
      simp [hk']

theorem serves_step (hs : Serves h q) (hst : step q a = some t) : Serves ((q, a) :: h) t := by
  cases a with
  | construct v p text =>
    obtain ⟨L, hL⟩ := hs.ledgered
    obtain ⟨w, hw, rfl⟩ := Option.map_eq_some_iff.1 hst
    obtain ⟨⟨-, hv, hp, -⟩, he⟩ := Option.ite_none_right_eq_some.1 hw
    cases he
    refine ⟨⟨_, hL.create (data_eq_none hv) hp⟩, fun k => ?_, hs.le, ?_⟩
    · rw [← hs.slots]
      simp [World.create, World.put]
    · rw [returned_cons, inserted_cons, List.append_nil, List.append_nil, ← hs.order]
      congr 1
      exact tasks_congr fun k _ _ => hL.holds_create hp (by simp)
  | insert v =>
    rw [step] at hst
    split_ifs at hst with hv
    cases hst
    exact serves_insert hs hv
  | get v =>
    rw [step] at hst
    split_ifs at hst with hv
    cases hst
    exact serves_get hs hv.1 hv.2
  | destroy v =>
    obtain ⟨L, hL⟩ := hs.ledgered
    obtain ⟨w, hw, rfl⟩ := Option.map_eq_some_iff.1 hst
    obtain ⟨-, he⟩ := Option.ite_none_right_eq_some.1 hw
    cases he
    refine ⟨hL.destroy _, fun k => ?_, hs.le, ?_⟩
    · rw [← hs.slots, hL.objects_destroy, Function.update_of_ne (by simp)]
    · rw [returned_cons, inserted_cons, List.append_nil, List.append_nil, ← hs.order]
      congr 1
      refine tasks_congr fun k _ _ => ?_
      rw [hL.holds_destroy, Function.update_of_ne (by simp)]

/-- **First in, first out.** -/
theorem fifo_of_run (hr : Run step init h q) :
    returned h ++ q.tasks = inserted h ∧ Sound q.world := by
  have h0 : Serves [] (init : TaskQueue V B) :=
    ⟨⟨_, ledgered_init⟩, fun k => by simp [init, World.init], le_rfl, rfl⟩
  have hs : Serves h q := hr.inv_hist (G := fun _ _ => True) (I := Serves) h0
    (fun _ _ _ _ hs _ hst => serves_step hs hst) (fun _ _ => trivial)
  obtain ⟨L, hL⟩ := hs.ledgered
  exact ⟨hs.order, hL.sound⟩

/-- Two tasks are inserted, the first one is taken out. -/
theorem fifo_of_run_two : ∃ h, ∃ q : TaskQueue Bool ℕ, Run step init h q ∧
    returned h = [some [111]] ∧ q.tasks = [some [116]] ∧
    returned h ++ q.tasks = inserted h ∧ Sound q.world := by
  have hr : Run step (init : TaskQueue Bool ℕ) _ _ := .snoc (a := .get true)
    (.snoc (a := .destroy true) (.snoc (a := .insert true) (.snoc (a := .construct true 1 [116])
      (.snoc (a := .destroy true) (.snoc (a := .insert true)
        (.snoc (a := .construct true 0 [111]) .nil rfl) rfl) rfl) rfl) rfl) rfl) rfl
  exact ⟨_, _, hr, rfl, rfl, fifo_of_run hr⟩

end TaskQueue

end CppExperiment.StdAttri
