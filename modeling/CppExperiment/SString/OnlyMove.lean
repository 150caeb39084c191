/-
  `StringOnlyMove` (Standard/std_attri/SString.hpp): objects that own a buffer
  of characters and can be moved, but not copied.

  The move assignment returns early if one of the two objects has no buffer,
  and otherwise overwrites `data_` without a `delete`.

  * `step`: constructions, moves and destructions of any number of objects.
    A run is ledgered (`Ledgered`) as long as every buffer has its owner.
  * `moves_sound_iff`: every buffer has one owner and every assignment takes
    the string over, throughout a run iff no assignment moves from an object
    that holds a string.
-/
import CppExperiment.Lib.Run
import CppExperiment.Lib.Ownership
import CppExperiment.Lib.Memory

namespace CppExperiment.SString

variable {O B : Type} [DecidableEq O] [DecidableEq B]

/-- A `StringOnlyMove` has one member, the pointer `data_`. -/
abbrev StringOnlyMove (B : Type) := Option B

/-- The live objects, the heap of buffers with their contents, and the first
    undefined `delete`. -/
structure World (O B : Type) where
  objects : O → Option (StringOnlyMove B)
  heap : Heap B
  text : B → List UInt8
  fault : Option (Fault B)

namespace World

/-- No object has been constructed. -/
def init : World O B := ⟨fun _ => none, ⟨∅, []⟩, fun _ => [], none⟩

/-- `data_` of an object. -/
def data (w : World O B) (o : O) : Option B := (w.objects o).join

/-- The string that an object holds, as `to_string` reads it; `none` if
    `Empty()`. -/
def holds (w : World O B) (o : O) : Option (List UInt8) := (w.data o).map fun p => cstr (w.text p)

/-- The object `o` comes, changes or goes. -/
def put (w : World O B) (o : O) (x : Option (StringOnlyMove B)) : World O B :=
  { w with objects := Function.update w.objects o x }

/-- `data_ = new char[..]`, in a constructor: the buffer `p` with the bytes
    `cs`. -/
def create (w : World O B) (o : O) (p : B) (cs : List UInt8) : World O B :=
  { w.put o (some (some p)) with heap := w.heap.new p, text := Function.update w.text p cs }

/-- `StringOnlyMove(StringOnlyMove &&rhs)`; `data_` is null at first. -/
def moveInit (w : World O B) (o rhs : O) : World O B :=
  if w.data rhs = none then w.put o (some none)
  else (w.put o (some (w.data rhs))).put rhs (some none)

/-- `operator=(StringOnlyMove &&rhs)` of the object `o`, which may be `rhs`. -/
def moveAssign (w : World O B) (o rhs : O) : World O B :=
  if w.data rhs = none ∨ w.data o = none then w
  else (w.put o (some (w.data rhs))).put rhs (some none)

/-- `~StringOnlyMove()` -/
def destroy (w : World O B) (o : O) : World O B :=
  match w.heap.delete (w.data o) with
  | .ok heap => { w.put o none with heap := heap }
  | .error e => { w with fault := some e }

end World

/-- What the program does with objects of the class. -/
inductive Action (O B : Type)
  /-- `StringOnlyMove()`, with whatever the new buffer contains -/
  | init (o : O) (p : B) (cs : List UInt8)
  /-- `StringOnlyMove(const char *s)` -/
  | initStr (o : O) (p : B) (s : List UInt8)
  | moveInit (o rhs : O)
  | moveAssign (o rhs : O)
  | destroy (o : O)

/-- One action.  Objects are constructed once, used while they live and
    destroyed once; `new` returns a buffer that is not allocated. -/
def step (w : World O B) : Action O B → Option (World O B)
  | .init o p cs =>
    if w.fault.isNone ∧ w.objects o = none ∧ p ∉ w.heap.live ∧ cs.length = 1024 then
      some (w.create o p cs)
    else none
  | .initStr o p s =>
    if w.fault.isNone ∧ w.objects o = none ∧ p ∉ w.heap.live ∧ 0 ∉ s then
      some (w.create o p (s ++ [0]))
    else none
  | .moveInit o rhs =>
    if w.fault.isNone ∧ w.objects o = none ∧ w.objects rhs ≠ none then some (w.moveInit o rhs)
    else none
  | .moveAssign o rhs =>
    if w.fault.isNone ∧ w.objects o ≠ none ∧ w.objects rhs ≠ none then some (w.moveAssign o rhs)
    else none
  | .destroy o =>
    if w.fault.isNone ∧ w.objects o ≠ none then some (w.destroy o) else none

/-- Each allocated buffer is owned by exactly one live object, and none has
    been freed twice. -/
def Sound (w : World O B) : Prop := w.fault = none ∧ ∀ p ∈ w.heap.live, ∃! o, w.data o = some p

/-- The assignment from an object that holds a string takes it over. -/
def Takes (w : World O B) : Action O B → Prop
  | .moveAssign o rhs => o ≠ rhs → ∀ v, w.holds rhs = some v →
      ∀ t, step w (.moveAssign o rhs) = some t → t.holds o = some v
  | _ => True

/-- The assignment takes over what the other object holds, be it no string. -/
def TakesAny (w : World O B) : Action O B → Prop
  | .moveAssign o rhs => o ≠ rhs →
      ∀ t, step w (.moveAssign o rhs) = some t → t.holds o = w.holds rhs
  | _ => True

/-- The assignment does not lose a buffer. -/
def KeepsBuffer (w : World O B) : Action O B → Prop
  | .moveAssign o rhs => w.data rhs = none ∨ w.data o = none
  | _ => True

/-- Only moved-from objects are assigned from. -/
def FromEmpty (w : World O B) : Action O B → Prop
  | .moveAssign _ rhs => w.data rhs = none
  | _ => True

/-- Only moved-from objects are assigned from, and assigned to. -/
def BothEmpty (w : World O B) : Action O B → Prop
  | .moveAssign o rhs => w.data rhs = none ∧ w.data o = none
  | _ => True

/-! ## Owners -/

/-- The ledger `L` says which object owns which buffer; nothing has gone wrong. -/
structure Ledgered (w : World O B) (L : Ledger O B) : Prop where
  points : L.Points w.data
  covers : L.Covers w.heap.live
  fault : w.fault = none

/-- The pointers lead to allocated buffers. -/
def NoDangling (w : World O B) : Prop := ∀ o p, w.data o = some p → p ∈ w.heap.live

section
variable {w t : World O B} {L : Ledger O B} {o rhs : O} {p : B} {cs : List UInt8}
  {a : Action O B}

omit [DecidableEq O] [DecidableEq B] in
theorem Ledgered.noDangling (h : Ledgered w L) : NoDangling w :=
  fun o p hp => h.covers.mem ((h.points p o).2 hp)

omit [DecidableEq O] [DecidableEq B] in
theorem Ledgered.sound (h : Ledgered w L) : Sound w := by
  refine ⟨h.fault, ?_⟩
  intro p hp
  obtain ⟨o, ho⟩ := Option.isSome_iff_exists.1 ((h.covers p).1 hp)
  have ho := (h.points p o).1 ho
  exact ⟨o, ho, h.points.unique ho⟩

omit [DecidableEq O] [DecidableEq B] in
theorem Sound.ledgered (h : Sound w) (hn : NoDangling w) : ∃ L, Ledgered w L := by
  obtain ⟨L, hL, hc⟩ := Ledger.Points.of_unique h.2 hn
  exact ⟨L, hL, hc, h.1⟩

omit [DecidableEq B] in
@[simp] theorem data_put (x : Option (StringOnlyMove B)) :
    (w.put o x).data = Function.update w.data o x.join := by
  funext o'
  by_cases h : o' = o
  · subst h; simp [World.data, World.put]
  · simp [World.data, World.put, h]

theorem data_create : (w.create o p cs).data = Function.update w.data o (some p) :=
  data_put (some (some p))

/-- A new object owns its new buffer. -/
theorem Ledgered.create (h : Ledgered w L) (ho : w.data o = none) (hp : p ∉ w.heap.live) :
    Ledgered (w.create o p cs) (Function.update L p (some o)) := by
  have hL : L p = none := Option.not_isSome_iff_eq_none.1 (mt (h.covers p).2 hp)
  refine ⟨?_, h.covers.insert p o, h.fault⟩
  rw [data_create]
  exact h.points.give hL ho

/-- The buffer moves from `rhs` to `o`, which has none. -/
theorem Ledgered.move (h : Ledgered w L) (hp : w.data rhs = some p) (ho : w.data o = none) :
    Ledgered ((w.put o (some (some p))).put rhs (some none)) (Function.update L p (some o)) := by
  refine ⟨?_, h.covers.transfer ((h.points p rhs).2 hp), h.fault⟩
  rw [data_put, data_put]
  exact h.points.move hp ho

omit [DecidableEq O] [DecidableEq B] in
theorem ledgered_init : Ledgered (World.init : World O B) fun _ => none :=
  ⟨by intro p o; simp [World.init, World.data], by intro p; simp [World.init], rfl⟩

omit [DecidableEq B] in
/-- An object without a buffer may come, or go. -/
theorem Ledgered.put (h : Ledgered w L) {x : Option (StringOnlyMove B)} (ho : w.data o = none)
    (hx : x.join = none) : Ledgered (w.put o x) L := by
  refine ⟨?_, h.covers, h.fault⟩
  rw [data_put, hx, ← ho, Function.update_eq_self]
  exact h.points

/-- The destructor frees the buffer. -/
theorem Ledgered.destroy (h : Ledgered w L) (o : O) : ∃ L, Ledgered (w.destroy o) L := by
  unfold World.destroy
  cases hd : w.data o with
  | none => exact ⟨L, h.put hd rfl⟩
  | some p =>
    rw [Heap.delete_live (h.noDangling o p hd)]
    refine ⟨Function.update L p none, ?_, h.covers.erase p, h.fault⟩
    change Ledger.Points _ (w.put o none).data
    rw [data_put]
    exact h.points.drop hd

theorem Ledgered.moveInit (h : Ledgered w L) (ho : w.data o = none) :
    ∃ L, Ledgered (w.moveInit o rhs) L := by
  unfold World.moveInit
  cases hp : w.data rhs with
  | none => exact ⟨L, h.put ho rfl⟩
  | some p => exact ⟨_, h.move hp ho⟩

omit [DecidableEq B] in
/-- With a null pointer in one of the objects nothing happens. -/
theorem moveAssign_null (h : w.data rhs = none ∨ w.data o = none) : w.moveAssign o rhs = w :=
  if_pos h

omit [DecidableEq B] in
/-- Two objects with buffers: that of the object assigned to has no owner any
    more, while it stays allocated. -/
theorem not_sound_moveAssign (h : Ledgered w L) (ho : w.data o ≠ none) (hr : w.data rhs ≠ none) :
    ¬ Sound (w.moveAssign o rhs) := by
  obtain ⟨p, ho⟩ := Option.ne_none_iff_exists'.1 ho
  obtain ⟨q, hr⟩ := Option.ne_none_iff_exists'.1 hr
  rintro ⟨-, hs⟩
  simp only [World.moveAssign, ho, hr, reduceCtorEq, or_self, if_false] at hs
  obtain ⟨o', ho', -⟩ := hs p (h.noDangling o p ho)
  simp only [data_put, Option.join_some] at ho'
  by_cases h1 : o' = rhs
  · subst h1; simp at ho'
  by_cases h2 : o' = o
  · subst h2
    rw [Function.update_of_ne h1, Function.update_self] at ho'
    exact h1 (h.points.unique (ho'.symm ▸ hr) o' ho)
  · rw [Function.update_of_ne h1, Function.update_of_ne h2] at ho'
    exact h2 (h.points.unique ho o' ho')

/-! ## Runs -/

/-- What a step does, and when it is possible. -/
theorem step_cases (hs : step w a = some t) :
    (∃ o p cs, (a = .init o p cs ∨ ∃ s, a = .initStr o p s ∧ cs = s ++ [0]) ∧
        w.objects o = none ∧ p ∉ w.heap.live ∧ t = w.create o p cs) ∨
      (∃ o rhs, a = .moveInit o rhs ∧ w.objects o = none ∧ t = w.moveInit o rhs) ∨
      (∃ o rhs, a = .moveAssign o rhs ∧ t = w.moveAssign o rhs) ∨
      ∃ o, a = .destroy o ∧ t = w.destroy o := by
  cases a with
  | init o p cs =>
    obtain ⟨⟨-, ho, hp, -⟩, ht⟩ := Option.ite_none_right_eq_some.1 hs
    obtain rfl := Option.some.inj ht
    exact .inl ⟨o, p, cs, .inl rfl, ho, hp, rfl⟩
  | initStr o p s =>
    obtain ⟨⟨-, ho, hp, -⟩, ht⟩ := Option.ite_none_right_eq_some.1 hs
    obtain rfl := Option.some.inj ht
    exact .inl ⟨o, p, s ++ [0], .inr ⟨s, rfl, rfl⟩, ho, hp, rfl⟩
  | moveInit o rhs =>
    obtain ⟨⟨-, ho, -⟩, ht⟩ := Option.ite_none_right_eq_some.1 hs
    obtain rfl := Option.some.inj ht
    exact .inr (.inl ⟨o, rhs, rfl, ho, rfl⟩)
  | moveAssign o rhs =>
    obtain ⟨-, ht⟩ := Option.ite_none_right_eq_some.1 hs
    obtain rfl := Option.some.inj ht
    exact .inr (.inr (.inl ⟨o, rhs, rfl, rfl⟩))
  | destroy o =>
    obtain ⟨-, ht⟩ := Option.ite_none_right_eq_some.1 hs
    obtain rfl := Option.some.inj ht
    exact .inr (.inr (.inr ⟨o, rfl, rfl⟩))

omit [DecidableEq O] [DecidableEq B] in
theorem data_eq_none (h : w.objects o = none) : w.data o = none := by rw [World.data, h]; rfl

/-- **A step** that does not lose a buffer keeps the books. -/
theorem Ledgered.step (h : Ledgered w L) (hk : KeepsBuffer w a) (hs : step w a = some t) :
    ∃ L, Ledgered t L := by
  rcases step_cases hs with ⟨o, p, cs, -, ho, hp, rfl⟩ | ⟨o, rhs, -, ho, rfl⟩ | ⟨o, rhs, rfl, rfl⟩ |
    ⟨o, -, rfl⟩
  · exact ⟨_, h.create (data_eq_none ho) hp⟩
  · exact h.moveInit (data_eq_none ho)
  · rw [moveAssign_null hk]
    exact ⟨L, h⟩
  · exact h.destroy o

/-- A step keeps the buffers owned iff it does not lose one. -/
theorem sound_step_iff (h : Ledgered w L) (hs : SString.step w a = some t) :
    Sound t ↔ KeepsBuffer w a := by
  constructor
  · intro ht
    cases a with
    | moveAssign o rhs =>
      by_contra hk
      obtain ⟨hr, ho⟩ := not_or.1 hk
      obtain ⟨-, he⟩ := Option.ite_none_right_eq_some.1 hs
      obtain rfl := Option.some.inj he
      exact not_sound_moveAssign h ho hr ht
    | _ => trivial
  · intro hk
    obtain ⟨L', h'⟩ := h.step hk hs
    exact h'.sound

omit [DecidableEq O] [DecidableEq B] in
theorem holds_eq_none : w.holds o = none ↔ w.data o = none := Option.map_eq_none_iff

/-- An assignment that keeps the buffers does nothing. -/
theorem moveAssign_of_keepsBuffer (hk : KeepsBuffer w (.moveAssign o rhs))
    (hs : SString.step w (.moveAssign o rhs) = some t) : t = w := by
  obtain ⟨-, he⟩ := Option.ite_none_right_eq_some.1 hs
  rw [← Option.some.inj he, moveAssign_null hk]

/-- Without losing a buffer, an assignment takes a string over only where there
    is none. -/
theorem takes_iff (hs : SString.step w a = some t) :
    KeepsBuffer w a ∧ Takes w a ↔ FromEmpty w a := by
  cases a with
  | moveAssign o rhs =>
    constructor
    · rintro ⟨hk, ht⟩
      by_contra hr
      have ho : w.data o = none := hk.resolve_left hr
      have hne : o ≠ rhs := by rintro rfl; exact hr ho
      obtain ⟨v, hv⟩ := Option.ne_none_iff_exists'.1 (mt holds_eq_none.1 hr)
      have := ht hne v hv t hs
      rw [moveAssign_of_keepsBuffer hk hs, holds_eq_none.2 ho] at this
      cases this
    · intro hr
      refine ⟨.inl hr, fun _ v hv => ?_⟩
      rw [holds_eq_none.2 hr] at hv
      cases hv
  | _ => simp [KeepsBuffer, Takes, FromEmpty]

/-- The same where an empty object is to be taken over, too. -/
theorem takesAny_iff (hs : SString.step w a = some t) :
    KeepsBuffer w a ∧ TakesAny w a ↔ BothEmpty w a := by
  cases a with
  | moveAssign o rhs =>
    constructor
    · rintro ⟨hk, ht⟩
      by_cases hne : o = rhs
      · subst hne
        exact ⟨hk.elim id id, hk.elim id id⟩
      · have he := ht hne t hs
        rw [moveAssign_of_keepsBuffer hk hs] at he
        rcases hk with hr | ho
        · rw [holds_eq_none.2 hr] at he
          exact ⟨hr, holds_eq_none.1 he⟩
        · rw [holds_eq_none.2 ho] at he
          exact ⟨holds_eq_none.1 he.symm, ho⟩
    · rintro ⟨hr, ho⟩
      refine ⟨.inl hr, fun _ t ht => ?_⟩
      rw [moveAssign_of_keepsBuffer (.inl hr) ht, holds_eq_none.2 ho, holds_eq_none.2 hr]
  | _ => simp [KeepsBuffer, TakesAny, BothEmpty]

/-- Throughout a run the buffers have their owners iff no step loses one. -/
theorem always_sound_iff {h : List (World O B × Action O B)} (hr : Run SString.step .init h w) :
    Always Sound h w ↔ Steps KeepsBuffer h := by
  refine hr.always_iff (I := NoDangling) (G := KeepsBuffer) ?_ ?_ ?_ ?_
  · intro o p hp
    cases hp
  · exact ⟨rfl, fun p hp => by simp [World.init] at hp⟩
  · intro w a t hn hw hk hs
    obtain ⟨L, hL⟩ := hw.ledgered hn
    obtain ⟨L', hL'⟩ := hL.step hk hs
    exact hL'.noDangling
  · intro w a t hn hw hs
    obtain ⟨L, hL⟩ := hw.ledgered hn
    exact sound_step_iff hL hs

/-- **Moves.**  Throughout a run every allocated buffer is owned by exactly one
    live object and none is freed twice, and each assignment from another
    object takes its string over, iff all assignments are from moved-from
    objects; if the target is to be empty after those too, iff they are also to
    moved-from objects. -/
theorem moves_sound_iff {h : List (World O B × Action O B)} (hr : Run SString.step .init h w) :
    (Always Sound h w ∧ Steps Takes h ↔ Steps FromEmpty h) ∧
      (Always Sound h w ∧ Steps TakesAny h ↔ Steps BothEmpty h) := by
  rw [always_sound_iff hr, ← steps_and, ← steps_and]
  constructor
  · exact hr.steps_iff (I := fun _ => True) trivial (fun _ _ _ _ _ => trivial)
      fun _ _ _ _ hs => takes_iff hs
  · exact hr.steps_iff (I := fun _ => True) trivial (fun _ _ _ _ _ => trivial)
      fun _ _ _ _ hs => takesAny_iff hs

end

/-! ## Two objects -/

/-- After `StringOnlyMove s1("a"), s2("b")`. -/
def twoObjects : World ℕ ℕ := (World.init.create 1 1 ([97] ++ [0])).create 2 2 ([98] ++ [0])

theorem twoObjects_run : Run step .init [(World.init.create 1 1 ([97] ++ [0]), .initStr 2 2 [98]),
    (.init, .initStr 1 1 [97])] twoObjects :=
  (RunOf.nil.snoc rfl).snoc rfl

/-- `s1 = std::move(s2)` loses the buffer of `s1`. -/
theorem move_leaks : ¬ ∀ (h : List (World ℕ ℕ × Action ℕ ℕ)) (w : World ℕ ℕ),
    Run step .init h w → Always Sound h w ∧ Steps Takes h := by
  intro hall
  have hs : step twoObjects (.moveAssign 1 2) = some (twoObjects.moveAssign 1 2) := rfl
  have hL : Ledgered twoObjects _ :=
    (ledgered_init.create rfl (by decide)).create rfl (by decide)
  exact not_sound_moveAssign hL (by decide) (by decide) (hall _ _ (twoObjects_run.snoc hs)).1.2

/-- `StringOnlyMove s3 = std::move(s1); s2 = std::move(s1);` -/
theorem moves_sound_two : ∃ h w, Run step .init h w ∧ w = twoObjects.moveInit 3 1 ∧
    Always Sound h w ∧ Steps Takes h := by
  have hr := (twoObjects_run.snoc (a := .moveInit 3 1) (t := twoObjects.moveInit 3 1) rfl).snoc
    (a := .moveAssign 2 1) (t := twoObjects.moveInit 3 1) rfl
  refine ⟨_, _, hr, rfl, (moves_sound_iff hr).1.2 ?_⟩
  intro x hx
  simp only [List.mem_cons, List.not_mem_nil, or_false] at hx
  rcases hx with rfl | rfl | rfl | rfl
  · rfl
  · trivial
  · trivial
  · trivial

end CppExperiment.SString
