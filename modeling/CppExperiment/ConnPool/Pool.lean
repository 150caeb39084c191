/-
  The connection pool `CConnPool<_Tx>` (CommonTools/ConnPool.h).

  A connection is a heap object; a pointer to one may be null.  The vector
  `m_Conns` is a list with the back of the vector last.  The operations return
  the new pool and heap, or the undefined behaviour they run into.

  * `getConnect`, `getConnectWithCheckConnectFlag`, `putConnect`,
    `releaseConnect` and `releasePool` are the operations of the class; what
    the environment decides (the objects `new` returns, the outcome of
    `Create()`, the clock, the answers of `GetSocketValid()`) is an argument.
  * `step` is the pool used by any number of clients: one action is one
    mutex-protected section, or a part of the creation of a connection, which
    the code does without holding the mutex.
-/
import CppExperiment.Lib.Run
import CppExperiment.Lib.Ownership
import CppExperiment.Lib.Sweep

namespace CppExperiment.ConnPool

/-- A connection object. -/
abbrev Conn := ℕ

/-- A pointer to a connection; `none` is `nullptr`. -/
abbrev Ptr := Option Conn

/-- `MAX_CONN_NUM` -/
def maxConnNum : ℕ := 8192

/-- The members `m_Conns` and `m_LastCheckTime`. -/
structure Pool where
  conns : List Ptr
  lastCheckTime : ℤ

/-- The constructor; `now` is the clock. -/
def Pool.init (now : ℤ) : Pool := ⟨[], now⟩

/-- What an operation returns, or the undefined behaviour it runs into. -/
abbrev Result := Except (Fault Conn)

/-- `STD::Free(p)`: delete the object and set the pointer to null. -/
def free (h : Heap Conn) (p : Ptr) : Result (Heap Conn × Ptr) := do
  let h ← h.delete p
  return (h, none)

/-- The loop of `ReleasePool`: every entry is freed in place. -/
def releaseAll : List Ptr → Heap Conn → Result (List Ptr × Heap Conn)
  | [], h => .ok ([], h)
  | p :: ps, h => do
    let (h, p) ← free h p
    let (ps, h) ← releaseAll ps h
    return (p :: ps, h)

/-- `ReleasePool` -/
def releasePool (s : Pool) (h : Heap Conn) : Result (Pool × Heap Conn) := do
  let (conns, h) ← releaseAll s.conns h
  return ({ s with conns := conns }, h)

/-- The locked section of `GetConnect`: the back of the vector, which is popped;
    `none` if the vector is empty. -/
def popConn (s : Pool) : Option (Ptr × Pool) :=
  match s.conns.getLast? with
  | some p => some (p, { s with conns := s.conns.dropLast })
  | none => none

/-- The outcome of `p->Create()`. -/
inductive Created where
  | ok
  | failed
  | thrown
  deriving DecidableEq

/-- `CreateConn` after `new` has returned `p`.  If `Create()` throws, the
    handler returns null and the object stays allocated. -/
def afterNew (h : Heap Conn) (p : Conn) : Created → Result (Ptr × Heap Conn)
  | .ok => .ok (some p, h)
  | .failed => do
    let (h, _) ← free h (some p)
    return (none, h)
  | .thrown => .ok (none, h)

/-- `CreateConn`: `p` is the object `new` returns, `none` if it throws. -/
def createConn (h : Heap Conn) (p : Option Conn) (r : Created) : Result (Ptr × Heap Conn) :=
  match p with
  | none => .ok (none, h)
  | some p => afterNew (h.new p) p r

/-- `GetConnect` -/
def getConnect (s : Pool) (h : Heap Conn) (p : Option Conn) (r : Created) :
    Result (Ptr × Pool × Heap Conn) :=
  match popConn s with
  | some (q, s) => .ok (q, s, h)
  | none => do
    let (q, h) ← createConn h p r
    return (q, s, h)

/-- The loop of `CheckConnect` from index `i` on; `n` bounds the iterations.
    An invalid connection is freed and replaced by the last entry. -/
def checkLoop (valid : Conn → Bool) : ℕ → ℕ → List Ptr → Heap Conn → Result (List Ptr × Heap Conn)
  | 0, _, conns, h => .ok (conns, h)
  | n + 1, i, conns, h =>
    match conns[i]? with
    | none => .ok (conns, h)
    | some p => do
      let c ← h.deref p
      if valid c then
        checkLoop valid n (i + 1) conns h
      else
        let (h, _) ← free h p
        -- `m_Conns[i] = m_Conns.back(); m_Conns.pop_back();`
        checkLoop valid n i ((conns.set i (conns.getLast?.getD none)).dropLast) h

/-- `CheckConnect`; the clock reads `now` at the start and `now'` at the end. -/
def checkConnect (now now' : ℤ) (valid : Conn → Bool) (s : Pool) (h : Heap Conn) :
    Result (Pool × Heap Conn) :=
  if now - s.lastCheckTime < 1 then .ok (s, h)
  else do
    let (conns, h) ← checkLoop valid s.conns.length 0 s.conns h
    return (⟨conns, now'⟩, h)

/-- `GetConnectWithCheckConnectFlag` -/
def getConnectWithCheckConnectFlag (now now' : ℤ) (valid : Conn → Bool) (s : Pool)
    (h : Heap Conn) (p : Option Conn) (r : Created) : Result (Ptr × Pool × Heap Conn) := do
  let (s, h) ← checkConnect now now' valid s h
  getConnect s h p r

/-- `PutConnect`; the last component is the caller's pointer afterwards. -/
def putConnect (s : Pool) (h : Heap Conn) : Ptr → Result (Pool × Heap Conn × Ptr)
  | none => .ok (s, h, none)
  | some c =>
    if s.conns.length < maxConnNum then .ok ({ s with conns := s.conns ++ [some c] }, h, some c)
    else do
      let (h, p) ← free h (some c)
      return (s, h, p)

/-- `ReleaseConnect` -/
def releaseConnect (h : Heap Conn) : Ptr → Result (Heap Conn × Ptr)
  | none => .ok (h, none)
  | some c => free h (some c)

/-! ## Clients -/

/-- Where a client is in a call. -/
inductive Pc where
  /-- in no call -/
  | idle
  /-- in `GetConnectWithCheckConnectFlag`, after `CheckConnect` -/
  | checked
  /-- in `CreateConn`, before `new` -/
  | creating
  /-- in `CreateConn`, `p->Create()` is running -/
  | created (p : Conn)
  deriving DecidableEq

/-- The pool, the heap, and each client's position and connections. -/
structure State where
  pool : Pool
  heap : Heap Conn
  pc : ℕ → Pc
  held : ℕ → List Conn
  /-- the undefined behaviour a client ran into, if any -/
  fault : Option (Fault Conn)

/-- Nothing is allocated, no client is in a call. -/
def State.init (now : ℤ) : State := ⟨Pool.init now, ⟨∅, []⟩, fun _ => .idle, fun _ => [], none⟩

/-- One atomic action of the client `k`. -/
inductive Action where
  /-- the locked section of `GetConnect` -/
  | getConnect (k : ℕ)
  /-- `CheckConnect` of `GetConnectWithCheckConnectFlag` -/
  | checkConnect (k : ℕ) (now now' : ℤ) (valid : Conn → Bool)
  /-- `new _Tx()`, which throws or returns an object -/
  | newConn (k : ℕ) (p : Option Conn)
  /-- `p->Create()` returns or throws -/
  | create (k : ℕ) (r : Created)
  | putConnect (k : ℕ) (c : Conn)
  | releaseConnect (k : ℕ) (c : Conn)
  | releasePool (k : ℕ)

namespace State

def setPc (s : State) (k : ℕ) (q : Pc) : State := { s with pc := Function.update s.pc k q }

/-- The client `k` receives the pointer `p`. -/
def gain (s : State) (k : ℕ) : Ptr → State
  | none => s
  | some c => { s with held := Function.update s.held k (c :: s.held k) }

/-- The client `k` no longer has the connection `c`. -/
def lose (s : State) (k : ℕ) (c : Conn) : State :=
  { s with held := Function.update s.held k ((s.held k).erase c) }

def crash (s : State) (f : Fault Conn) : State := { s with fault := some f }

variable (s : State) (k : ℕ) (q : Pc) (c : Conn) (p : Ptr)

@[simp] theorem setPc_pool : (s.setPc k q).pool = s.pool := rfl
@[simp] theorem setPc_heap : (s.setPc k q).heap = s.heap := rfl
@[simp] theorem setPc_held : (s.setPc k q).held = s.held := rfl
@[simp] theorem setPc_fault : (s.setPc k q).fault = s.fault := rfl
@[simp] theorem setPc_pc : (s.setPc k q).pc = Function.update s.pc k q := rfl
@[simp] theorem gain_pool : (s.gain k p).pool = s.pool := by cases p <;> rfl
@[simp] theorem gain_heap : (s.gain k p).heap = s.heap := by cases p <;> rfl
@[simp] theorem gain_pc : (s.gain k p).pc = s.pc := by cases p <;> rfl
@[simp] theorem gain_fault : (s.gain k p).fault = s.fault := by cases p <;> rfl
@[simp] theorem gain_held :
    (s.gain k (some c)).held = Function.update s.held k (c :: s.held k) := rfl
@[simp] theorem lose_pool : (s.lose k c).pool = s.pool := rfl
@[simp] theorem lose_heap : (s.lose k c).heap = s.heap := rfl
@[simp] theorem lose_pc : (s.lose k c).pc = s.pc := rfl
@[simp] theorem lose_fault : (s.lose k c).fault = s.fault := rfl
@[simp] theorem lose_held :
    (s.lose k c).held = Function.update s.held k ((s.held k).erase c) := rfl

end State

/-- One action; `none` if it is not possible in the state.  A client puts and
    releases only connections it holds; `new` returns no live object; after
    undefined behaviour nothing is said. -/
def step (s : State) (a : Action) : Option State :=
  if s.fault.isSome then none else
  match a with
  | .getConnect k =>
    if s.pc k = .idle ∨ s.pc k = .checked then
      match popConn s.pool with
      | some (p, pool) => some (({ s with pool := pool }.setPc k .idle).gain k p)
      | none => some (s.setPc k .creating)
    else none
  | .checkConnect k now now' valid =>
    if s.pc k = .idle then
      match checkConnect now now' valid s.pool s.heap with
      | .ok (pool, heap) => some ({ s with pool := pool, heap := heap }.setPc k .checked)
      | .error f => some (s.crash f)
    else none
  | .newConn k p =>
    if s.pc k = .creating then
      match p with
      | none => some (s.setPc k .idle)
      | some c =>
        if c ∈ s.heap.live then none
        else some (({ s with heap := s.heap.new c }.setPc k (.created c)).gain k (some c))
    else none
  | .create k r =>
    match s.pc k with
    | .created c =>
      match afterNew s.heap c r with
      | .ok (some _, heap) => some ({ s with heap := heap }.setPc k .idle)
      | .ok (none, heap) => some (({ s with heap := heap }.setPc k .idle).lose k c)
      | .error f => some (s.crash f)
    | _ => none
  | .putConnect k c =>
    if s.pc k = .idle ∧ c ∈ s.held k then
      match putConnect s.pool s.heap (some c) with
      | .ok (pool, heap, _) => some ({ s with pool := pool, heap := heap }.lose k c)
      | .error f => some (s.crash f)
    else none
  | .releaseConnect k c =>
    if s.pc k = .idle ∧ c ∈ s.held k then
      match releaseConnect s.heap (some c) with
      | .ok (heap, _) => some ({ s with heap := heap }.lose k c)
      | .error f => some (s.crash f)
    else none
  | .releasePool k =>
    if s.pc k = .idle then
      match releasePool s.pool s.heap with
      | .ok (pool, heap) => some { s with pool := pool, heap := heap }
      | .error f => some (s.crash f)
    else none

end CppExperiment.ConnPool
