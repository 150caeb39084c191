/-
  `UFStringType<length>` (CommonTools/UFDataType.h): a string of at most `length`
  characters in a buffer of its own.

  The members that take another `UFStringType` (the copy constructor, `operator=`,
  `==` and `!=`) call its `Data()`, which is not `const`, so they do not compile
  where they are used.  An object gets the string of another one through the
  pointer of its `GetValue()`, which is its buffer.

  * `setValue_some`, `setValue_eq_none`: what `SetValue` leaves, and which
    pointers it must not be given.
  * `shows_of_run`: which runs are defined, and that each object then shows what
    fits of the text it was given last.
-/
import CppExperiment.Lib.Run
import CppExperiment.STD.Para

namespace CppExperiment.UFStringType
open STD (strncmpEq)

/-- `strcmp(a, b) == 0`; the bound lies behind the end of the block `a`, so it
    never ends the comparison. -/
def strcmpEq (m : Mem) (a b : ℕ) : Option Bool := strncmpEq m a b ((m a).length + 1) 0

/-- `UFStringType()` and `Clear()`; `b` is the block of `m_buffer`. -/
def clear (m : Mem) (b : ℕ) : Option Mem := m.store b 0 0

/-- `SetValue(s)`; `none` is the null pointer. -/
def setValue (length : ℕ) (m : Mem) (b : ℕ) : (s : Option ℕ) → Option Mem
  | none => m.store b 0 0
  | some s => do
    -- `strncpy` must not copy within one buffer
    let m ← if s = b ∧ 0 < length then none else m.strncpy b s length 0
    m.store b length 0

/-- `Empty()` -/
def empty (m : Mem) (b : ℕ) : Option Bool := (m.load b 0).map (· == 0)

/-- `operator==(r)` -/
def eq (m : Mem) (b r : ℕ) : Option Bool := strcmpEq m b r

/-- `operator!=(r)` -/
def ne (m : Mem) (b r : ℕ) : Option Bool := (strcmpEq m b r).map not

variable {m m' : Mem} {b r length : ℕ} {p : Option ℕ} {s t : List UInt8}

/-- The text that a pointer gives. -/
def text (m : Mem) : (p : Option ℕ) → List UInt8
  | none => []
  | some r => cstr (m r)

/-- `SetValue` may read the text: it is not in the buffer itself, and it ends or
    fills the buffer. -/
def Readable (length : ℕ) (m : Mem) (b : ℕ) : (p : Option ℕ) → Prop
  | none => True
  | some r => (r = b → length = 0) ∧ (0 ∈ m r ∨ length ≤ (m r).length)

/-! ## `SetValue` -/

/-- What fits of the text is copied, and the rest of the buffer is filled. -/
theorem setValue_some (hsz : (m b).length = length + 1) (h : Readable length m b (some r)) :
    setValue length m b (some r) = some (m.put b ((cstr (m r)).take length ++
      List.replicate (length - (cstr (m r)).length) 0 ++ [0])) := by
  obtain ⟨hself, hread⟩ := h
  rcases Nat.eq_zero_or_pos length with rfl | hpos
  · rw [setValue, if_neg (fun hx => lt_irrefl 0 hx.2), Mem.strncpy]
    show m.store b 0 0 = _
    rw [Mem.store_zero (by omega)]
    simp
  · have hne : r ≠ b := fun hr => hpos.ne' (hself hr)
    rw [setValue, if_neg (fun hx => hne hx.1)]
    have hcopy : m.strncpy b r length 0 = some (m.put b ((cstr (m r)).take length ++
        List.replicate (length - (cstr (m r)).length) 0)) := by
      rcases lt_or_ge (cstr (m r)).length length with hlt | hge
      · have h0 : 0 ∈ m r := by
          by_contra h0
          rw [cstr_eq_self h0] at hlt
          exact hread.elim h0 (fun hle => hlt.not_ge hle)
        have hstr := Mem.isStr_cstr h0
        have hfill := Mem.strncpy_fill (p := []) hne hstr.at_end hstr.1 hlt (by simp; omega)
        rw [Mem.put_nil] at hfill
        rw [List.take_of_length_le hlt.le]
        exact hfill
      · have hat : m.At r 0 ((cstr (m r)).take length) :=
          (List.take_prefix _ _).trans (List.takeWhile_prefix _)
        have h0 : 0 ∉ (cstr (m r)).take length := by
          intro h0
          simpa using List.mem_takeWhile_imp (List.mem_of_mem_take h0)
        have hlen : ((cstr (m r)).take length).length = length := List.length_take_of_le hge
        have hput := Mem.strncpy_put (p := []) hne hat h0 (by simp; omega)
        rw [Mem.put_nil, hlen] at hput
        rw [Nat.sub_eq_zero_of_le hge, List.replicate_zero, List.append_nil]
        exact hput
    rw [hcopy]
    show Mem.store _ b length 0 = _
    rw [Mem.store_put (by simp; omega) (by omega)]

/-- Otherwise it is undefined. -/
theorem setValue_eq_none (h : ¬ Readable length m b p) : setValue length m b p = none := by
  cases p with
  | none => exact absurd trivial h
  | some r =>
    rw [setValue]
    split_ifs with hself
    · rfl
    · have hover : (r ≠ b ∧ 0 < length) ∧ 0 ∉ m r ∧ (m r).length < length := by
        rw [Readable, not_and_or, not_or] at h
        rcases h with h | h
        · rw [Classical.not_imp] at h
          exact absurd ⟨h.1, Nat.pos_of_ne_zero h.2⟩ hself
        · have hpos : 0 < length := by omega
          exact ⟨⟨fun hr => hself ⟨hr, hpos⟩, hpos⟩, h.1, by omega⟩
      rw [Mem.strncpy_over hover.1.1 hover.2.1 hover.1.2 (by omega)]
      rfl

/-- **One assignment**: the buffer is a string, of what fits of the text. -/
theorem setValue_spec (hsz : (m b).length = length + 1) (h : setValue length m b p = some m') :
    m.SameBut b m' ∧ m'.IsStr b ((text m p).take length) := by
  cases p with
  | none =>
    rw [setValue, Mem.store_zero (by omega), Option.some.injEq] at h
    subst h
    rw [text, List.take_nil]
    exact ⟨Mem.sameBut_put (by rw [hsz]; simp), Mem.isStr_put (s := []) List.not_mem_nil⟩
  | some r =>
    by_cases hr : Readable length m b (some r)
    · rw [setValue_some hsz hr, Option.some.injEq] at h
      subst h
      refine ⟨Mem.sameBut_put (by simp; omega), ?_, ?_⟩
      · intro h0
        simpa using List.mem_takeWhile_imp (List.mem_of_mem_take h0)
      · rw [Mem.put_self, List.append_assoc _ _ [0], List.append_assoc, ← List.replicate_succ',
          List.replicate_succ, List.cons_append]
        exact ⟨_, rfl⟩
    · rw [setValue_eq_none hr] at h
      cases h

/-! ## What an object shows -/

/-- Two strings are compared. -/
theorem strncmpEq_whole {a i n : ℕ} (ha : m.At a i (s ++ [0])) (hs : 0 ∉ s)
    (hb : m.At b i (t ++ [0])) (ht : 0 ∉ t) (hn : s.length < n) :
    strncmpEq m a b n i = some (decide (s = t)) := by
  induction s generalizing t i n with
  | nil =>
    obtain ⟨n, rfl⟩ := Nat.exists_eq_succ_of_ne_zero (Nat.ne_zero_of_lt hn)
    rw [strncmpEq, ha.load, Option.bind_eq_bind, Option.bind_some]
    cases t with
    | nil => rw [hb.load]; rfl
    | cons y t =>
      rw [List.mem_cons, not_or] at ht
      rw [hb.load, Option.bind_some, if_pos ht.1]
      rfl
  | cons x s ih =>
    obtain ⟨n, rfl⟩ := Nat.exists_eq_succ_of_ne_zero (Nat.ne_zero_of_lt hn)
    rw [List.mem_cons, not_or] at hs
    rw [strncmpEq, ha.load, Option.bind_eq_bind, Option.bind_some]
    cases t with
    | nil =>
      rw [hb.load, Option.bind_some, if_pos (Ne.symm hs.1)]
      rfl
    | cons y t =>
      rw [List.mem_cons, not_or] at ht
      rw [hb.load, Option.bind_some]
      by_cases hxy : x = y
      · subst hxy
        rw [if_neg (fun hne => hne rfl), if_neg (Ne.symm hs.1),
          ih ha.tail hs.2 hb.tail ht.2 (Nat.lt_of_succ_lt_succ hn)]
        simp
      · rw [if_pos hxy]
        simp [hxy]

/-- The object in the block `b` shows the text `s`. -/
structure Shows (m : Mem) (b : ℕ) (s : List UInt8) : Prop where
  getValue : m.IsStr b s
  empty : empty m b = some (decide (s = []))
  eq : ∀ r t, m.IsStr r t → eq m b r = some (decide (s = t))
  ne : ∀ r t, m.IsStr r t → ne m b r = some (decide (s ≠ t))

theorem IsStr.shows (h : m.IsStr b s) : Shows m b s := by
  have heq : ∀ r t, m.IsStr r t → strcmpEq m b r = some (decide (s = t)) := fun r t hr =>
    strncmpEq_whole h.at_end h.1 hr.at_end hr.1 (h.length_lt.trans (Nat.lt_succ_self _))
  refine ⟨h, ?_, heq, fun r t hr => ?_⟩
  · have h0 := h.1
    rw [empty]
    cases s with
    | nil => rw [h.at_end.load]; rfl
    | cons c s =>
      rw [List.mem_cons, not_or] at h0
      rw [h.at_end.load]
      simp [Ne.symm h0.1]
  · rw [ne, heq r t hr]
    simp

/-! ## Programs -/

/-- A program with objects: the memory, the `length` of the object in each block,
    and the text that each object was given last. -/
structure Program where
  mem : Mem
  objects : ℕ → Option ℕ
  given : ℕ → List UInt8
  fault : Bool

namespace Program

def init : Program := ⟨fun _ => [], fun _ => none, fun _ => [], false⟩

/-- A member function on the object in the block `b` has been called. -/
def call (q : Program) (b length : ℕ) (s : List UInt8) : Option Mem → Program
  | some m => { q with
      mem := m
      objects := Function.update q.objects b (some length)
      given := Function.update q.given b s }
  | none => { q with fault := true }

/-- A step of the program. -/
inductive Action
  /-- `UFStringType<length>()`; the bytes are what the buffer contains before. -/
  | construct (b length : ℕ) (bytes : List UInt8)
  /-- `UFStringType<length>(p)` -/
  | constructFrom (b length : ℕ) (bytes : List UInt8) (p : Option ℕ)
  /-- `operator=(p)` -/
  | assign (b : ℕ) (p : Option ℕ)
  | clear (b : ℕ)
  | destroy (b : ℕ)
  /-- The program writes to memory outside the objects. -/
  | write (r : ℕ) (bytes : List UInt8)

/-- One step; `none` if the program does not do it. -/
def step (q : Program) : Action → Option Program
  | .construct b length bytes =>
    if q.fault = false ∧ q.objects b = none ∧ bytes.length = length + 1 then
      let m := Function.update q.mem b bytes
      some (q.call b length [] (UFStringType.clear m b))
    else none
  | .constructFrom b length bytes p =>
    if q.fault = false ∧ q.objects b = none ∧ bytes.length = length + 1 then
      let m := Function.update q.mem b bytes
      some (q.call b length (text m p) (setValue length m b p))
    else none
  | .assign b p =>
    if q.fault = false then
      (q.objects b).map fun length => q.call b length (text q.mem p) (setValue length q.mem b p)
    else none
  | .clear b =>
    if q.fault = false then
      (q.objects b).map fun length => q.call b length [] (UFStringType.clear q.mem b)
    else none
  | .destroy b =>
    if q.fault = false ∧ q.objects b ≠ none then
      some { q with
        mem := Function.update q.mem b []
        objects := Function.update q.objects b none }
    else none
  | .write r bytes =>
    if q.fault = false ∧ q.objects r = none then
      some { q with mem := Function.update q.mem r bytes }
    else none

/-- The step gives `SetValue` a pointer that it may read. -/
def GivesReadable (q : Program) : Action → Prop
  | .constructFrom b length bytes p => Readable length (Function.update q.mem b bytes) b p
  | .assign b p => ∀ length, q.objects b = some length → Readable length q.mem b p
  | _ => True

/-- Each object has its buffer, and shows what fits of the text it was given. -/
def Sound (q : Program) : Prop := ∀ b length, q.objects b = some length →
  (q.mem b).length = length + 1 ∧ q.mem.IsStr b ((q.given b).take length)

variable {q q' : Program} {a : Action} {h : List (Program × Action)}

theorem sound_init : Sound init := nofun

/-- A call changes the object in one block. -/
theorem Sound.call (hq : Sound q) {x : Option Mem} (hm : ∀ b', b' ≠ b → m b' = q.mem b')
    (hsz : (m b).length = length + 1)
    (hx : ∀ m', x = some m' → m.SameBut b m' ∧ m'.IsStr b (s.take length)) :
    Sound (q.call b length s x) := by
  cases x with
  | none => exact hq
  | some m' =>
    obtain ⟨hsame, hstr⟩ := hx m' rfl
    intro b' n hb'
    dsimp only [Program.call] at hb' ⊢
    by_cases hb : b' = b
    · subst hb
      rw [Function.update_self, Option.some.injEq] at hb'
      subst hb'
      rw [Function.update_self]
      exact ⟨hsame.length.trans hsz, hstr⟩
    · rw [Function.update_of_ne hb] at hb'
      rw [Function.update_of_ne hb, Mem.IsStr, hsame.eq b' hb, hm b' hb]
      exact hq b' n hb'

/-- What a step does: it calls `SetValue` on one object, or changes a block that
    then is no object. -/
inductive Effect (q : Program) (a : Action) : Program → Prop
  | setValue (m : Mem) (b length : ℕ) (p : Option ℕ) :
      (∀ b', b' ≠ b → m b' = q.mem b') → (m b).length = length + 1 →
      (GivesReadable q a ↔ Readable length m b p) →
      Effect q a (q.call b length (text m p) (setValue length m b p))
  | other (r : ℕ) (bytes : List UInt8) : GivesReadable q a →
      Effect q a { q with
        mem := Function.update q.mem r bytes
        objects := Function.update q.objects r none }

/-- `Clear` and the default constructor leave what `SetValue` leaves of a null
    pointer. -/
theorem effect_of_step (hq : Sound q) (hst : step q a = some q') :
    q.fault = false ∧ Effect q a q' := by
  have hupd : ∀ (b : ℕ) (bytes : List UInt8) (b' : ℕ), b' ≠ b →
      Function.update q.mem b bytes b' = q.mem b' :=
    fun b bytes b' hb => Function.update_of_ne hb _ _
  cases a with
  | construct b length bytes =>
    rw [Program.step, Option.ite_none_right_eq_some, Option.some.injEq] at hst
    obtain ⟨⟨hf, -, hlen⟩, rfl⟩ := hst
    have hsz : (Function.update q.mem b bytes b).length = length + 1 := by
      rw [Function.update_self, hlen]
    exact ⟨hf, .setValue _ b length none (hupd b bytes) hsz .rfl⟩
  | constructFrom b length bytes p =>
    rw [Program.step, Option.ite_none_right_eq_some, Option.some.injEq] at hst
    obtain ⟨⟨hf, -, hlen⟩, rfl⟩ := hst
    have hsz : (Function.update q.mem b bytes b).length = length + 1 := by
      rw [Function.update_self, hlen]
    exact ⟨hf, .setValue _ b length p (hupd b bytes) hsz .rfl⟩
  | assign b p =>
    rw [Program.step, Option.ite_none_right_eq_some, Option.map_eq_some_iff] at hst
    obtain ⟨hf, length, hb, rfl⟩ := hst
    have hread : GivesReadable q (.assign b p) ↔ Readable length q.mem b p := by
      rw [GivesReadable, hb]
      simp
    exact ⟨hf, .setValue _ b length p (fun _ _ => rfl) (hq b length hb).1 hread⟩
  | clear b =>
    rw [Program.step, Option.ite_none_right_eq_some, Option.map_eq_some_iff] at hst
    obtain ⟨hf, length, hb, rfl⟩ := hst
    exact ⟨hf, .setValue _ b length none (fun _ _ => rfl) (hq b length hb).1 .rfl⟩
  | destroy b =>
    rw [Program.step, Option.ite_none_right_eq_some, Option.some.injEq] at hst
    obtain ⟨⟨hf, -⟩, rfl⟩ := hst
    exact ⟨hf, .other b [] trivial⟩
  | write r bytes =>
    rw [Program.step, Option.ite_none_right_eq_some, Option.some.injEq] at hst
    obtain ⟨⟨hf, hr⟩, rfl⟩ := hst
    have heffect := Effect.other (a := .write r bytes) (q := q) r bytes trivial
    rw [← hr, Function.update_eq_self] at heffect
    exact ⟨hf, heffect⟩

theorem Sound.step (hq : Sound q) (hst : step q a = some q') : Sound q' := by
  obtain ⟨-, heffect⟩ := effect_of_step hq hst
  cases heffect with
  | setValue m b length p hm hsz _ => exact hq.call hm hsz fun m' hm' => setValue_spec hsz hm'
  | other r bytes _ =>
    intro b n hb
    dsimp only at hb ⊢
    have hne : b ≠ r := by
      rintro rfl
      rw [Function.update_self] at hb
      cases hb
    rw [Function.update_of_ne hne] at hb
    rw [Mem.IsStr, Function.update_of_ne hne]
    exact hq b n hb

/-- A call of `SetValue` on an object. -/
theorem fault_call (hf : q.fault = false) (hsz : (m b).length = length + 1) :
    (q.call b length s (setValue length m b p)).fault = false ↔ Readable length m b p := by
  by_cases hp : Readable length m b p
  · cases p with
    | none =>
      have hset : setValue length m b none = some (m.put b [0]) := Mem.store_zero (by omega)
      rw [hset]
      exact iff_of_true hf hp
    | some r =>
      rw [setValue_some hsz hp]
      exact iff_of_true hf hp
  · rw [setValue_eq_none hp]
    exact iff_of_false nofun hp

/-- A step is undefined exactly if `SetValue` must not read what it is given. -/
theorem fault_step (hq : Sound q) (hst : step q a = some q') :
    q'.fault = false ↔ GivesReadable q a := by
  obtain ⟨hf, heffect⟩ := effect_of_step hq hst
  cases heffect with
  | setValue m b length p _ hsz hread => exact (fault_call hf hsz).trans hread.symm
  | other r bytes hread => exact iff_of_true hf hread

/-- **The objects of a program**: a run is defined iff no object is given a text
    in its own buffer, or one that neither ends nor fills the buffer; then each
    object shows what fits of the text that it was given last. -/
theorem shows_of_run (hr : Run step init h q) :
    (q.fault = false ↔ Steps GivesReadable h) ∧ (q.fault = false → ∀ b length,
      q.objects b = some length → Shows q.mem b ((q.given b).take length)) := by
  have hsound := hr.inv sound_init fun _ _ _ hq hst => Sound.step hq hst
  refine ⟨?_, fun _ b length hb => IsStr.shows (hsound b length hb).2⟩
  have hbefore : Steps (fun q _ => q.fault = false) h :=
    hr.steps (I := Sound) (P := fun q _ => q.fault = false) sound_init
      (fun _ _ _ hq hst => Sound.step hq hst) fun _ _ _ hq hst => (effect_of_step hq hst).1
  have halways := hr.always_iff (G := GivesReadable) (P := fun q => q.fault = false) sound_init rfl
    (fun _ _ _ hq _ _ hst => Sound.step hq hst) (fun _ _ _ hq _ hst => fault_step hq hst)
  rw [← halways]
  exact ⟨fun hf => ⟨hbefore, hf⟩, fun hal => hal.2⟩

/-- A text is cut, and what is left of it goes on to another object. -/
theorem shows_of_run_two : ∃ h q, Run step init h q ∧ Steps GivesReadable h ∧
    Shows q.mem 1 [97, 98] := by
  have hr : Run step init _ _ := .snoc (a := .constructFrom 1 5 [7, 7, 7, 7, 7, 7] (some 0))
    (.snoc (a := .constructFrom 0 2 [7, 7, 7] (some 9))
      (.snoc (a := .write 9 [97, 98, 99, 0]) .nil rfl) rfl) rfl
  exact ⟨_, _, hr, (shows_of_run hr).1.1 rfl, (shows_of_run hr).2 rfl 1 5 rfl⟩

end Program

end CppExperiment.UFStringType
