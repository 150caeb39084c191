/-
  `talk_to_svr` (Network/asio_client/EchoClient.h): a client that logs in and
  then asks the server and pings it in turns.

  Every handler runs when the operation it was given to has completed, and goes
  on with the next operation; `ops` are those that have not completed.

  The handlers own the client by `shared_from_this()` of
  `std::enable_shared_from_this`, but the pointer that `start` makes is a
  `boost::shared_ptr`, which leaves `weak_this_` empty: the first call throws.

  `one_op_never`: after `start` the client is started and no operation is
  outstanding.  With `weak_this_` set exactly one operation would be outstanding
  while the client is started, throughout a run iff the server only sends
  messages that the client knows, and the text of the login fits into the write
  buffer: a message that the client does not know ends the chain of handlers.
-/
import CppExperiment.Lib.Run
import CppExperiment.Lib.StdString

namespace CppExperiment.EchoClient
open StdString

/-- A `std::string`. -/
abbrev Str := List UInt8

/-- The operations. -/
inductive Op
  | connect
  | write (msg : Str)
  | read
  | wait (millis : ℕ)
  deriving DecidableEq

/-- A client. -/
structure TalkToSvr where
  started : Bool
  username : Str
  /-- `weak_this_` of `std::enable_shared_from_this` has been set -/
  weakThis : Bool
  /-- the operations that have been started and not completed -/
  ops : List Op
  /-- a write past `write_buffer_`, or an exception that leaves `start` or a
      handler -/
  fault : Bool
  deriving DecidableEq

/-- The size of the buffers. -/
def maxMsg : ℕ := 1024

/-- `isspace` -/
def isSpace (c : UInt8) : Bool := c = 32 || (9 ≤ c && c ≤ 13)

/-- The words that `in >> answer` reads one after the other. -/
def words (msg : Str) : List Str := (msg.splitOnP isSpace).filter (· ≠ [])

/-- `in >> answer >> answer`: a read at the end of the text leaves the string as
    it is. -/
def secondWord (msg : Str) : Str :=
  match words msg with
  | _ :: w :: _ => w
  | [w] => w
  | [] => []

/-- `read_complete(err, bytes)`, with the bytes read so far. -/
def readComplete (err : Bool) (buf : Str) : ℕ :=
  if err then 0 else if 10 ∈ buf then 0 else 1

/-- What `async_read` reads without an error: one byte after the other, until
    `read_complete` returns 0 or the buffer is full. -/
def Complete (msg : Str) : Prop :=
  msg.length ≤ maxMsg ∧ (∀ n < msg.length, readComplete false (msg.take n) ≠ 0) ∧
    (readComplete false msg = 0 ∨ msg.length = maxMsg)

instance (msg : Str) : Decidable (Complete msg) :=
  inferInstanceAs (Decidable (_ ∧ _ ∧ _))

namespace TalkToSvr

/-- `ptr new_(new talk_to_svr(username))`: a `boost::shared_ptr` does not set
    `weak_this_`. -/
def new (username : Str) : TalkToSvr := ⟨true, username, false, [], false⟩

/-- The pointer has set `weak_this_`, as that of the base class would be. -/
def owned (s : TalkToSvr) : TalkToSvr := { s with weakThis := true }

/-- An operation is started, with a handler bound to `shared_from_this()`: this
    throws `bad_weak_ptr` unless `weak_this_` has been set. -/
def launch (s : TalkToSvr) (op : Op) : TalkToSvr :=
  if s.weakThis then { s with ops := op :: s.ops } else { s with fault := true }

/-- `start(ep)` -/
def start (s : TalkToSvr) : TalkToSvr := s.launch .connect

/-- `start(ep, username)` -/
def init (username : Str) : TalkToSvr := (new username).start

/-- `stop()` -/
def stop (s : TalkToSvr) : TalkToSvr := if !s.started then s else { s with started := false }

/-- `do_read()` -/
def doRead (s : TalkToSvr) : TalkToSvr := s.launch .read

/-- `do_write(msg)` -/
def doWrite (s : TalkToSvr) (msg : Str) : TalkToSvr :=
  if !s.started then s
  else if msg.length ≤ maxMsg then s.launch (.write msg)
  else { s with fault := true }

/-- `do_ping()` -/
def doPing (s : TalkToSvr) : TalkToSvr := s.doWrite (bytes "ping\n")

/-- `do_ask_clients()` -/
def doAskClients (s : TalkToSvr) : TalkToSvr := s.doWrite (bytes "clients ask\n")

/-- `postpone_ping()`, with the next number of `rand()`; the handler of the timer
    is bound to the object. -/
def postponePing (s : TalkToSvr) (rand : ℕ) : TalkToSvr :=
  { s with ops := .wait (rand % 7000) :: s.ops }

/-- `on_login()` -/
def onLogin (s : TalkToSvr) : TalkToSvr := s.doAskClients

/-- `on_ping(msg)` -/
def onPing (s : TalkToSvr) (msg : Str) (rand : ℕ) : TalkToSvr :=
  if secondWord msg = bytes "client_list_changed" then s.doAskClients else s.postponePing rand

/-- `on_clients(msg)` -/
def onClients (s : TalkToSvr) (msg : Str) (rand : ℕ) : TalkToSvr :=
  match substrFrom msg 8 with
  | none => { s with fault := true }
  | some _ => s.postponePing rand

/-- The text of the login. -/
def login (s : TalkToSvr) : Str := bytes "login " ++ s.username ++ bytes "\n"

/-- `on_connect(err)` -/
def onConnect (s : TalkToSvr) (err : Bool) : TalkToSvr :=
  if !err then s.doWrite s.login else s.stop

/-- `on_write(err, bytes)` -/
def onWrite (s : TalkToSvr) (_err : Bool) : TalkToSvr := s.doRead

/-- `on_read(err, bytes)`, with the message in the buffer. -/
def onRead (s : TalkToSvr) (err : Bool) (msg : Str) (rand : ℕ) : TalkToSvr :=
  let s := if err then s.stop else s
  if !s.started then s
  else if findStr msg (bytes "login ") = some 0 then s.onLogin
  else if findStr msg (bytes "ping") = some 0 then s.onPing msg rand
  else if findStr msg (bytes "clients") = some 0 then s.onClients msg rand
  else s

/-- An operation completes. -/
def complete (s : TalkToSvr) (op : Op) : Option TalkToSvr :=
  if op ∈ s.ops then some { s with ops := s.ops.erase op } else none

end TalkToSvr

/-- What happens next: an operation completes and its handler runs, or `stop` is
    called. -/
inductive Action
  | connected (err : Bool)
  | written (msg : Str) (err : Bool)
  | read (err : Bool) (msg : Str) (rand : ℕ)
  | timer (millis : ℕ)
  | stop

/-- One action; `none` if it is not possible. -/
def step (s : TalkToSvr) (a : Action) : Option TalkToSvr :=
  if s.fault then none
  else match a with
  | .connected err => (s.complete .connect).map (·.onConnect err)
  | .written msg err => (s.complete (.write msg)).map (·.onWrite err)
  | .read err msg rand =>
    if err ∨ Complete msg then (s.complete .read).map (·.onRead err msg rand) else none
  | .timer millis => (s.complete (.wait millis)).map (·.doPing)
  | .stop => some s.stop

/-- Nothing has gone wrong, and exactly one operation is outstanding while the
    client is started. -/
structure OneOp (s : TalkToSvr) : Prop where
  fault : s.fault = false
  one : s.started = true → s.ops.length = 1

/-- The message is one of those that `on_read` looks for. -/
def Known (msg : Str) : Prop :=
  findStr msg (bytes "login ") = some 0 ∨ findStr msg (bytes "ping") = some 0 ∨
    findStr msg (bytes "clients") = some 0

/-- The condition of a step. -/
def Continues (s : TalkToSvr) (a : Action) : Prop :=
  match a with
  | .connected err => s.started = true → err = false → s.login.length ≤ maxMsg
  | .read err msg _ => s.started = true → err = false → Known msg
  | _ => True

/-! ## The handlers -/

variable {s t : TalkToSvr} {a : Action} {op : Op} {msg : Str} {rand : ℕ}

/-- A client at the start of a handler: its operation has completed. -/
structure Idle (s : TalkToSvr) : Prop where
  started : s.started = true
  weakThis : s.weakThis = true
  ops : s.ops = []
  fault : s.fault = false

/-- The operation that completes is the only one. -/
theorem idle_of_complete (hP : OneOp s) (hst : s.started = true) (hw : s.weakThis = true)
    (h : s.complete op = some t) : Idle t ∧ t.username = s.username := by
  unfold TalkToSvr.complete at h
  split_ifs at h with hop
  cases h
  obtain ⟨op', hops⟩ := List.length_eq_one_iff.1 (hP.one hst)
  rw [hops, List.mem_singleton] at hop
  subst hop
  exact ⟨⟨hst, hw, by simp [hops], hP.fault⟩, rfl⟩

theorem oneOp_of_stopped (hst : s.started = false) (hf : s.fault = false) : OneOp s :=
  ⟨hf, fun h => absurd (hst.symm.trans h) Bool.false_ne_true⟩

theorem oneOp_stop (hf : s.fault = false) : OneOp s.stop := by
  unfold TalkToSvr.stop
  split_ifs with h
  · exact oneOp_of_stopped (by simpa using h) hf
  · exact oneOp_of_stopped rfl hf

theorem stop_started : s.stop.started = false := by
  unfold TalkToSvr.stop
  split_ifs with h
  · simpa using h
  · rfl

/-- The next operation is the only one. -/
theorem oneOp_launch (hi : Idle s) : OneOp (s.launch op) := by
  rw [TalkToSvr.launch, if_pos hi.weakThis, hi.ops]
  exact ⟨hi.fault, fun _ => rfl⟩

theorem oneOp_doRead (hi : Idle s) : OneOp s.doRead := oneOp_launch hi

theorem oneOp_doWrite_iff (hi : Idle s) : OneOp (s.doWrite msg) ↔ msg.length ≤ maxMsg := by
  unfold TalkToSvr.doWrite
  rw [hi.started]
  constructor
  · intro h
    by_contra hlen
    rw [if_neg (by decide), if_neg hlen] at h
    cases h.fault
  · intro hlen
    rw [if_neg (by decide), if_pos hlen]
    exact oneOp_launch hi

theorem oneOp_doPing (hi : Idle s) : OneOp s.doPing :=
  (oneOp_doWrite_iff hi).2 (by decide +kernel)

theorem oneOp_doAskClients (hi : Idle s) : OneOp s.doAskClients :=
  (oneOp_doWrite_iff hi).2 (by decide +kernel)

theorem oneOp_postponePing (hi : Idle s) : OneOp (s.postponePing rand) :=
  ⟨hi.fault, fun _ => by rw [TalkToSvr.postponePing, hi.ops]; rfl⟩

theorem oneOp_onPing (hi : Idle s) : OneOp (s.onPing msg rand) := by
  unfold TalkToSvr.onPing
  split_ifs
  · exact oneOp_doAskClients hi
  · exact oneOp_postponePing hi

/-- A complete message that starts with `clients` has a character behind it. -/
theorem length_of_clients (hc : Complete msg) (hm : findStr msg (bytes "clients") = some 0) :
    8 ≤ msg.length := by
  have h7 : (bytes "clients").length = 7 ∧ 10 ∉ bytes "clients" := by decide +kernel
  obtain ⟨r, rfl⟩ := findStr_eq_zero.1 hm
  obtain ⟨-, -, hend⟩ := hc
  rw [List.length_append, h7.1] at hend ⊢
  have hr : r ≠ [] := by
    rintro rfl
    rcases hend with h | h
    · rw [readComplete, if_neg (by decide), List.append_nil, if_neg h7.2] at h
      cases h
    · cases h
  have := List.length_pos_iff.2 hr
  omega

theorem oneOp_onClients (hi : Idle s) (hc : Complete msg)
    (hm : findStr msg (bytes "clients") = some 0) : OneOp (s.onClients msg rand) := by
  unfold TalkToSvr.onClients
  rw [substrFrom, if_pos (length_of_clients hc hm)]
  exact oneOp_postponePing hi

/-- An unknown message leaves nothing outstanding. -/
theorem oneOp_onRead_iff (hi : Idle s) (hc : Complete msg) :
    OneOp (s.onRead false msg rand) ↔ Known msg := by
  unfold TalkToSvr.onRead
  simp only [Bool.false_eq_true, if_false, hi.started, Bool.not_true]
  split_ifs with h1 h2 h3
  · exact ⟨fun _ => .inl h1, fun _ => oneOp_doAskClients hi⟩
  · exact ⟨fun _ => .inr (.inl h2), fun _ => oneOp_onPing hi⟩
  · exact ⟨fun _ => .inr (.inr h3), fun _ => oneOp_onClients hi hc h3⟩
  · constructor
    · intro h
      have := h.one hi.started
      rw [hi.ops] at this
      cases this
    · rintro (h | h | h)
      · exact absurd h h1
      · exact absurd h h2
      · exact absurd h h3

/-! ## What the handlers leave alone -/

theorem weakThis_complete (h : s.complete op = some t) : t.weakThis = s.weakThis := by
  unfold TalkToSvr.complete at h
  split_ifs at h
  cases h
  rfl

@[simp] theorem weakThis_launch : (s.launch op).weakThis = s.weakThis := by
  unfold TalkToSvr.launch
  split_ifs <;> rfl

@[simp] theorem weakThis_stop : s.stop.weakThis = s.weakThis := by
  unfold TalkToSvr.stop
  split_ifs <;> rfl

@[simp] theorem weakThis_doWrite : (s.doWrite msg).weakThis = s.weakThis := by
  unfold TalkToSvr.doWrite
  split_ifs
  · rfl
  · exact weakThis_launch
  · rfl

theorem weakThis_onConnect {err : Bool} : (s.onConnect err).weakThis = s.weakThis := by
  unfold TalkToSvr.onConnect
  split_ifs
  · exact weakThis_doWrite
  · exact weakThis_stop

theorem weakThis_onPing : (s.onPing msg rand).weakThis = s.weakThis := by
  unfold TalkToSvr.onPing
  split_ifs
  · exact weakThis_doWrite
  · rfl

theorem weakThis_onClients : (s.onClients msg rand).weakThis = s.weakThis := by
  unfold TalkToSvr.onClients
  split <;> rfl

theorem weakThis_onRead {err : Bool} : (s.onRead err msg rand).weakThis = s.weakThis := by
  have hstop : (if err then s.stop else s).weakThis = s.weakThis := by
    split_ifs
    · exact weakThis_stop
    · rfl
  unfold TalkToSvr.onRead
  dsimp only
  rw [← hstop]
  generalize (if err then s.stop else s) = s'
  split_ifs
  · rfl
  · exact weakThis_doWrite
  · exact weakThis_onPing
  · exact weakThis_onClients
  · rfl

/-! ## Runs -/

/-- What a step does: an operation completes and its handler runs. -/
theorem step_cases (hs : step s a = some t) :
    match a with
    | .connected err => ∃ s', s.complete .connect = some s' ∧ s'.onConnect err = t
    | .written msg err => ∃ s', s.complete (.write msg) = some s' ∧ s'.onWrite err = t
    | .read err msg rand => (err = true ∨ Complete msg) ∧
        ∃ s', s.complete .read = some s' ∧ s'.onRead err msg rand = t
    | .timer millis => ∃ s', s.complete (.wait millis) = some s' ∧ s'.doPing = t
    | .stop => s.stop = t := by
  unfold step at hs
  split_ifs at hs
  cases a with
  | connected err => exact Option.map_eq_some_iff.1 hs
  | written msg err => exact Option.map_eq_some_iff.1 hs
  | read err msg rand =>
    dsimp only at hs
    split_ifs at hs with hread
    exact ⟨hread, Option.map_eq_some_iff.1 hs⟩
  | timer millis => exact Option.map_eq_some_iff.1 hs
  | stop => exact Option.some.inj hs

/-- No handler changes `weak_this_`. -/
theorem weakThis_step (hs : step s a = some t) : t.weakThis = s.weakThis := by
  cases a with
  | connected err =>
    obtain ⟨s', h, rfl⟩ := step_cases hs
    rw [weakThis_onConnect, weakThis_complete h]
  | written msg err =>
    obtain ⟨s', h, rfl⟩ := step_cases hs
    rw [TalkToSvr.onWrite, TalkToSvr.doRead, weakThis_launch, weakThis_complete h]
  | read err msg rand =>
    obtain ⟨-, s', h, rfl⟩ := step_cases hs
    rw [weakThis_onRead, weakThis_complete h]
  | timer millis =>
    obtain ⟨s', h, rfl⟩ := step_cases hs
    rw [TalkToSvr.doPing, weakThis_doWrite, weakThis_complete h]
  | stop =>
    have ht : s.stop = t := step_cases hs
    rw [← ht, weakThis_stop]

theorem complete_started (h : s.complete op = some t) :
    t.started = s.started ∧ t.fault = s.fault := by
  unfold TalkToSvr.complete at h
  split_ifs at h
  cases h
  exact ⟨rfl, rfl⟩

/-- The handlers of a stopped client start nothing that could go wrong. -/
theorem stopped_handlers (hst : s.started = false) :
    (∀ msg, s.doWrite msg = s) ∧
      ∀ err, s.onConnect err = s ∧ ∀ msg rand, s.onRead err msg rand = s := by
  have hstop : s.stop = s := by simp [TalkToSvr.stop, hst]
  have hwrite (msg : Str) : s.doWrite msg = s := by simp [TalkToSvr.doWrite, hst]
  refine ⟨hwrite, ?_⟩
  intro err
  cases err with
  | true => exact ⟨hstop, fun _ _ => by simp [TalkToSvr.onRead, hstop, hst]⟩
  | false => exact ⟨hwrite _, fun _ _ => by simp [TalkToSvr.onRead, hst]⟩

theorem stopped_step (hst : s.started = false) (hf : s.fault = false) (hw : s.weakThis = true)
    (hs : step s a = some t) : OneOp t := by
  have hdone : ∀ op s', s.complete op = some s' → s'.started = false ∧ OneOp s' := by
    intro op s' h
    obtain ⟨h1, h2⟩ := complete_started h
    exact ⟨h1.trans hst, oneOp_of_stopped (h1.trans hst) (h2.trans hf)⟩
  cases a with
  | connected err =>
    obtain ⟨s', h, rfl⟩ := step_cases hs
    obtain ⟨hst', hone⟩ := hdone _ _ h
    rw [((stopped_handlers hst').2 err).1]
    exact hone
  | written msg err =>
    obtain ⟨s', h, rfl⟩ := step_cases hs
    obtain ⟨hst', hone⟩ := hdone _ _ h
    have hread : s'.onWrite err = { s' with ops := .read :: s'.ops } :=
      if_pos ((weakThis_complete h).trans hw)
    rw [hread]
    exact oneOp_of_stopped hst' hone.fault
  | read err msg rand =>
    obtain ⟨-, s', h, rfl⟩ := step_cases hs
    obtain ⟨hst', hone⟩ := hdone _ _ h
    rw [((stopped_handlers hst').2 err).2]
    exact hone
  | timer millis =>
    obtain ⟨s', h, rfl⟩ := step_cases hs
    obtain ⟨hst', hone⟩ := hdone _ _ h
    rw [TalkToSvr.doPing, (stopped_handlers hst').1]
    exact hone
  | stop =>
    have ht : s.stop = t := step_cases hs
    rw [← ht]
    exact oneOp_stop hf

/-- **A step** of a started client keeps one operation outstanding iff it meets
    the condition. -/
theorem started_step (hP : OneOp s) (hst : s.started = true) (hw : s.weakThis = true)
    (hs : step s a = some t) : OneOp t ↔ Continues s a := by
  cases a with
  | connected err =>
    obtain ⟨s', h, rfl⟩ := step_cases hs
    obtain ⟨hi, huser⟩ := idle_of_complete hP hst hw h
    have hlogin : s'.login = s.login := by rw [TalkToSvr.login, huser]; rfl
    cases err with
    | true => exact iff_of_true (oneOp_stop hi.fault) (fun _ => nofun)
    | false =>
      change OneOp (s'.doWrite s'.login) ↔ (s.started = true → false = false → _)
      rw [oneOp_doWrite_iff hi, hlogin]
      exact ⟨fun h _ _ => h, fun h => h hst rfl⟩
  | written msg err =>
    obtain ⟨s', h, rfl⟩ := step_cases hs
    exact iff_of_true (oneOp_doRead (idle_of_complete hP hst hw h).1) trivial
  | read err msg rand =>
    obtain ⟨hread, s', h, rfl⟩ := step_cases hs
    have hi := (idle_of_complete hP hst hw h).1
    cases err with
    | true =>
      refine iff_of_true ?_ (fun _ => nofun)
      simp only [TalkToSvr.onRead, if_true, stop_started, Bool.not_false]
      exact oneOp_stop hi.fault
    | false =>
      have hc : Complete msg := hread.resolve_left Bool.false_ne_true
      change _ ↔ (s.started = true → false = false → _)
      rw [oneOp_onRead_iff hi hc]
      exact ⟨fun h _ _ => h, fun h => h hst rfl⟩
  | timer millis =>
    obtain ⟨s', h, rfl⟩ := step_cases hs
    exact iff_of_true (oneOp_doPing (idle_of_complete hP hst hw h).1) trivial
  | stop =>
    have ht : s.stop = t := step_cases hs
    rw [← ht]
    exact iff_of_true (oneOp_stop hP.fault) trivial

/-- The condition says nothing about a stopped client. -/
theorem continues_of_stopped (hst : s.started = false) : Continues s a := by
  have hno : s.started = true → False := fun h => Bool.false_ne_true (hst.symm.trans h)
  cases a with
  | connected err => exact fun h => (hno h).elim
  | read err msg rand => exact fun h => (hno h).elim
  | _ => trivial

/-- **One operation.**  The pointer that `start` makes leaves `weak_this_` empty:
    the client is started and nothing is outstanding.  With `weak_this_` set
    exactly one operation is outstanding while the client is started, throughout
    a run iff every message that is read is known and the text of the login fits
    into the buffer. -/
theorem one_op_never {username : Str} {h : List (TalkToSvr × Action)} :
    (Run step (.init username) h s → s.started = true ∧ s.ops = [] ∧ ¬ Always OneOp h s) ∧
    (Run step (TalkToSvr.new username).owned.start h s →
      (Always OneOp h s ↔ Steps Continues h)) := by
  constructor
  · intro hr
    -- `start` has thrown, so that nothing happens any more
    have hinit : s = .init username := hr.inv (I := fun s => s = .init username) rfl
      fun s a t hs hst => by subst hs; cases hst
    subst hinit
    exact ⟨rfl, rfl, fun hal => Bool.noConfusion hal.2.fault⟩
  · intro hr
    refine hr.always_iff (I := fun s => s.weakThis = true) rfl ⟨rfl, fun _ => rfl⟩ ?_ ?_
    · intro s a t hw _ _ hs
      exact (weakThis_step hs).trans hw
    · intro s a t hw hP hs
      cases hst : s.started with
      | true => exact started_step hP hst hw hs
      | false => exact iff_of_true (stopped_step hst hP.fault hw hs) (continues_of_stopped hst)

/-- `start` has thrown: the client is started, and nothing is outstanding. -/
theorem start_falls_silent : Run step (.init (bytes "u")) [] (.init (bytes "u")) ∧
    (TalkToSvr.init (bytes "u")).started = true ∧ (TalkToSvr.init (bytes "u")).ops = [] ∧
    ¬ OneOp (.init (bytes "u")) :=
  ⟨.nil, rfl, rfl, fun h => by cases h.fault⟩

/-- With `weak_this_` set: the client logs in as `u` and reads the message `msg`. -/
def loggedIn (msg : String) : List (TalkToSvr × Action) :=
  [(⟨true, bytes "u", true, [.read], false⟩, .read false (bytes msg) 0),
    (⟨true, bytes "u", true, [.write (bytes "login u\n")], false⟩,
      .written (bytes "login u\n") false),
    ((TalkToSvr.new (bytes "u")).owned.start, .connected false)]

/-- With `weak_this_` set the server answers the login. -/
theorem one_op_never_login : (TalkToSvr.init (bytes "u")).ops = [] ∧
    ¬ Always OneOp ([] : List (TalkToSvr × Action)) (.init (bytes "u")) ∧
    ∃ s, Run step (TalkToSvr.new (bytes "u")).owned.start (loggedIn "login ok\n") s ∧
      s.ops = [.write (bytes "clients ask\n")] ∧ Always OneOp (loggedIn "login ok\n") s := by
  have hr : Run step (TalkToSvr.new (bytes "u")).owned.start (loggedIn "login ok\n")
      ⟨true, bytes "u", true, [.write (bytes "clients ask\n")], false⟩ :=
    .snoc (.snoc (.snoc .nil (by decide +kernel)) (by decide +kernel)) (by decide +kernel)
  obtain ⟨-, hops, hnot⟩ := (@one_op_never (.init (bytes "u")) (bytes "u") []).1 .nil
  refine ⟨hops, hnot, _, hr, rfl, (one_op_never.2 hr).2 ?_⟩
  unfold loggedIn
  rw [steps_cons, steps_cons, steps_cons]
  refine ⟨fun _ _ => .inl (by decide +kernel), trivial, fun _ _ => by decide +kernel, ?_⟩
  intro x hx
  cases hx

/-- The server answers with another text: the client falls silent. -/
example : step ⟨true, bytes "u", true, [.read], false⟩ (.read false (bytes "welcome\n") 0) =
    some ⟨true, bytes "u", true, [], false⟩ := by decide +kernel

end CppExperiment.EchoClient
