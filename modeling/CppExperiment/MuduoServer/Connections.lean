/-
  `Service` and its connections (Network/muduo_server/Service.h).

  The server calls `OnConnection` when a connection is established and when it
  is closed, and `OnMessage` when bytes arrive; the calls of one loop do not
  overlap.  `OnConnection` does not ask which of the two has happened: it looks
  for the name of the connection in `m_Conns`.

  * `table_iff`: in every run, `m_Conns` holds exactly the established
    connections iff none is established under the name of another one.
  * `replies_of_run`: in every run, what is sent on a connection are the replies
    to its own messages, whatever arrives on the others.
-/
import CppExperiment.Lib.Run
import CppExperiment.MuduoServer.Service

namespace CppExperiment.MuduoServer
open StdString

/-- The life of a connection. -/
inductive Phase
  | connecting
  | established
  | closed
  deriving DecidableEq

variable {C : Type} [DecidableEq C]

/-- `m_Conns`, and the connections of the server. -/
structure Server (C : Type) where
  conns : Str → Option C
  phase : C → Phase
  conn : C → TcpConnection

/-- What happens next. -/
inductive Event (C : Type)
  | up (c : C)
  | down (c : C)
  | message (c : C) (chunk : Str)

namespace Server

def init : Server C := ⟨fun _ => none, fun _ => .connecting, fun _ => .new⟩

/-- The connection `c` is established. -/
abbrev Live (s : Server C) (c : C) : Prop := s.phase c = .established

variable (name : C → Str)

/-- `OnConnection(conn)` -/
def onConnection (s : Server C) (c : C) : Server C :=
  match s.conns (name c) with
  | none => { s with conns := Function.update s.conns (name c) (some c) }
  | some _ => { s with conns := Function.update s.conns (name c) none }

/-- The connection `c` has come to `p`, and `OnConnection` is called. -/
def turn (s : Server C) (c : C) (p : Phase) : Server C :=
  { s with phase := Function.update s.phase c p }.onConnection name c

/-- One event; `none` if it does not happen. -/
def step (s : Server C) : Event C → Option (Server C)
  | .up c => if s.phase c = .connecting then some (s.turn name c .established) else none
  | .down c => if s.Live c then some (s.turn name c .closed) else none
  | .message c chunk =>
    if s.Live c then
      some { s with conn := Function.update s.conn c (receive (s.conn c) chunk) }
    else none

/-! ## The table -/

/-- `m_Conns` holds exactly the established connections. -/
def TableRight (s : Server C) : Prop := ∀ n c, s.conns n = some c ↔ s.Live c ∧ name c = n

/-- No connection is established under the name of another one. -/
def FreshName (s : Server C) : Event C → Prop
  | .up c => ∀ d, s.Live d → name d ≠ name c
  | _ => True

variable {name} {s t : Server C} {c : C}

theorem live_turn_self {p : Phase} : (s.turn name c p).Live c ↔ p = .established := by
  unfold Live turn onConnection
  split <;> simp

theorem live_turn_of_ne {p : Phase} {d : C} (hd : d ≠ c) : (s.turn name c p).Live d ↔ s.Live d := by
  unfold Live turn onConnection
  split <;> simp [Function.update_of_ne hd]

theorem conns_turn {p : Phase} {n : Str} : (s.turn name c p).conns n =
    if n = name c then (if (s.conns (name c)).isSome then none else some c) else s.conns n := by
  unfold turn onConnection
  dsimp only
  split
  · next h => simp [Function.update_apply, h]
  · next h => simp [Function.update_apply, h]

/-- A connection that is established. -/
theorem tableRight_up (hs : TableRight name s) (hc : ¬ s.Live c) :
    TableRight name (s.turn name c .established) ↔ FreshName name s (.up c) := by
  constructor
  · intro ht d hd heq
    have hsome : s.conns (name c) = some d := (hs _ d).2 ⟨hd, heq⟩
    have hnone : (s.turn name c .established).conns (name c) = none := by
      rw [conns_turn, if_pos rfl, hsome]
      rfl
    have hcc := (ht (name c) c).2 ⟨live_turn_self.2 rfl, rfl⟩
    rw [hnone] at hcc
    cases hcc
  · intro hfresh n d
    have hnone : s.conns (name c) = none := by
      refine Option.eq_none_iff_forall_ne_some.2 fun d hd => ?_
      obtain ⟨hlive, hname⟩ := (hs _ d).1 hd
      exact hfresh d hlive hname
    rw [conns_turn, hnone]
    by_cases hd : d = c
    · subst hd
      rw [live_turn_self]
      split_ifs with hn hsome
      · simp at hsome
      · simp [hn]
      · rw [hs]
        simp [hc, Ne.symm hn]
    · rw [live_turn_of_ne hd]
      split_ifs with hn hsome
      · simp at hsome
      · subst hn
        simp only [Option.some.injEq, Ne.symm hd, false_iff, not_and]
        exact fun hlive => hfresh d hlive
      · exact hs n d

/-- A connection that is closed. -/
theorem tableRight_down (hs : TableRight name s) (hc : s.Live c) :
    TableRight name (s.turn name c .closed) := by
  have hsome : s.conns (name c) = some c := (hs _ c).2 ⟨hc, rfl⟩
  intro n d
  rw [conns_turn, hsome]
  by_cases hd : d = c
  · subst hd
    rw [live_turn_self]
    split_ifs with hn hnot
    · simp
    · exact absurd rfl hnot
    · rw [hs]
      simp [Ne.symm hn]
  · rw [live_turn_of_ne hd]
    split_ifs with hn hnot
    · subst hn
      simp only [false_iff, not_and]
      intro hlive hname
      have hdd := (hs _ d).2 ⟨hlive, hname⟩
      rw [hsome, Option.some.injEq] at hdd
      exact hd hdd.symm
    · exact absurd rfl hnot
    · exact hs n d

/-- **The table of connections.** -/
theorem table_iff {h : List (Server C × Event C)} (hr : Run (step name) init h s) :
    Always (TableRight name) h s ↔ Steps (FreshName name) h := by
  have h0 : TableRight name (init : Server C) := fun n c => by simp [init, Live]
  refine hr.always_iff (I := fun _ => True) trivial h0 (fun _ _ _ _ _ _ _ => trivial) ?_
  intro s a t _ hs hst
  cases a with
  | up c =>
    rw [step] at hst
    split_ifs at hst with hc
    cases hst
    exact tableRight_up hs (by simp [Live, hc])
  | down c =>
    rw [step] at hst
    split_ifs at hst with hc
    cases hst
    exact iff_of_true (tableRight_down hs hc) trivial
  | message c chunk =>
    rw [step] at hst
    split_ifs at hst
    cases hst
    exact iff_of_true hs trivial

/-- Two connections of one name: the second one removes the first one. -/
theorem table_iff_clash : ∃ h, ∃ s : Server Bool, Run (step fun _ => bytes "a") init h s ∧
    s.Live true ∧ s.Live false ∧ s.conns (bytes "a") = none ∧
    (Always (TableRight fun _ => bytes "a") h s ↔ Steps (FreshName fun _ => bytes "a") h) := by
  have hr : Run (step fun _ : Bool => bytes "a") init _ _ :=
    .snoc (a := .up true) (.snoc (a := .up false) .nil rfl) rfl
  exact ⟨_, _, hr, by decide +kernel, by decide +kernel, by decide +kernel, table_iff hr⟩

/-! ## The replies -/

/-- The messages that have arrived on a connection. -/
def messages (c : C) (h : List (Server C × Event C)) : List Str :=
  h.reverse.filterMap fun x => match x.2 with
    | .message d chunk => if d = c then some chunk else none
    | _ => none

theorem messages_cons {a : Event C} {h : List (Server C × Event C)} :
    messages c ((s, a) :: h) = messages c h ++ match a with
      | .message d chunk => if d = c then [chunk] else []
      | _ => [] := by
  unfold messages
  rw [List.reverse_cons, List.filterMap_append]
  congr 1
  cases a with
  | up d => rfl
  | down d => rfl
  | message d chunk =>
    by_cases hd : d = c
    · simp [hd]
    · simp [hd]

theorem conn_turn {p : Phase} : (s.turn name c p).conn = s.conn := by
  unfold turn onConnection
  split <;> rfl

/-- The calls for one connection leave the others as they are. -/
theorem conn_of_run {h : List (Server C × Event C)} (hr : Run (step name) init h s) :
    ∀ c, s.conn c = receiveAll .new (messages c h) := by
  refine hr.inv_hist (G := fun _ _ => True)
    (I := fun h s => ∀ c, s.conn c = receiveAll .new (messages c h)) (fun _ => rfl) ?_
    (fun _ _ => trivial)
  intro h s a t hs _ hst c
  rw [messages_cons]
  cases a with
  | up d =>
    rw [step] at hst
    split_ifs at hst
    cases hst
    rw [conn_turn, List.append_nil, hs]
  | down d =>
    rw [step] at hst
    split_ifs at hst
    cases hst
    rw [conn_turn, List.append_nil, hs]
  | message d chunk =>
    rw [step] at hst
    split_ifs at hst
    cases hst
    dsimp only
    by_cases hd : d = c
    · subst hd
      rw [Function.update_self, if_pos rfl, hs, receiveAll, receiveAll, List.foldl_append]
      rfl
    · rw [Function.update_of_ne (Ne.symm hd), if_neg hd, List.append_nil, hs]

/-- **The replies** on a connection are those to its own messages, in order. -/
theorem replies_of_run {h : List (Server C × Event C)} (hr : Run (step name) init h s) (c : C) :
    (s.conn c).sent = ((messages c h).map kind).flatMap Kind.rsp ∧ (s.conn c).buf = [] := by
  rw [conn_of_run hr c, receiveAll_eq rfl]
  exact ⟨rfl, rfl⟩

/-- A heartbeat and a query on two connections. -/
theorem replies_of_run_two : ∃ h, ∃ s : Server Bool, Run (step fun _ => bytes "a") init h s ∧
    messages false h = [bytes "R|any|6031|"] ∧
    (s.conn false).sent = ((messages false h).map kind).flatMap Kind.rsp ∧
    (s.conn false).buf = [] := by
  have hr : Run (step fun _ : Bool => bytes "a") init _ _ :=
    .snoc (a := .message true (bytes "6012")) (.snoc (a := .message false (bytes "R|any|6031|"))
      (.snoc (a := .up true) (.snoc (a := .up false) .nil rfl) rfl) rfl) rfl
  exact ⟨_, _, hr, rfl, replies_of_run hr false⟩

end Server

end CppExperiment.MuduoServer
