/-
  `AsioClient` (LibraryUse/AsioUse/asio_client.h): the handlers of the client on
  its single-threaded `io_context`.

  The state holds the members of the client and the asynchronous operations
  that are outstanding; each action runs one handler, or posts one from the
  main thread.  An outstanding `async_write` is represented by the text of its
  buffer when it was started.  The actions say which operation completes and
  whether it succeeds; nothing is assumed about their order.
-/
import CppExperiment.Lib.Run

namespace CppExperiment.AsioClient

/-- A handler posted to the `io_context`. -/
inductive Handler where
  | send (message : String)
  | close

/-- The client and its outstanding operations. -/
structure Client where
  /-- `write_msgs_` -/
  writeMsgs : List String
  socketOpen : Bool
  /-- posted handlers that have not run -/
  posted : List Handler
  resolving : Bool
  connecting : Bool
  /-- outstanding `async_read_some` into `read_buffer_` -/
  reads : ℕ
  /-- outstanding `async_write`, with the text being written -/
  writes : List String
  /-- `front` or `pop_front` of the empty queue was called -/
  ub : Bool

namespace Client

/-- The constructor starts to resolve the host. -/
def init : Client := ⟨[], true, [], true, false, 0, [], false⟩

/-- `do_read` -/
def doRead (c : Client) : Client := { c with reads := c.reads + 1 }

/-- `do_write` -/
def doWrite (c : Client) : Client :=
  match c.writeMsgs with
  | [] => { c with ub := true }
  | m :: _ => { c with writes := c.writes ++ [m] }

/-- `socket_.close()` -/
def closeSocket (c : Client) : Client := { c with socketOpen := false }

/-- `write_msgs_.pop_front()` -/
def popFront (c : Client) : Client :=
  match c.writeMsgs with
  | [] => { c with ub := true }
  | _ :: q => { c with writeMsgs := q }

/-- The text of a message on the wire. -/
def line (message : String) : String := message ++ "\n"

/-- The handler posted by `send`. -/
def onSend (c : Client) (message : String) : Client :=
  let writeInProgress := !c.writeMsgs.isEmpty
  let c := { c with writeMsgs := c.writeMsgs ++ [line message] }
  if !writeInProgress then c.doWrite else c

/-- A posted handler. -/
def onPosted (c : Client) : Handler → Client
  | .send message => c.onSend message
  | .close => c.closeSocket

/-- The completion handler of `async_resolve`. -/
def onResolve (c : Client) (ok : Bool) : Client := if ok then { c with connecting := true } else c

/-- The completion handler of `async_connect`. -/
def onConnect (c : Client) (ok : Bool) : Client := if ok then c.doRead else c

/-- The completion handler of `async_read_some`. -/
def onRead (c : Client) (ok : Bool) : Client := if ok then c.doRead else c.closeSocket

/-- The completion handler of `async_write`. -/
def onWrite (c : Client) (ok : Bool) : Client :=
  if ok then
    let c := c.popFront
    if !c.writeMsgs.isEmpty then c.doWrite else c.doRead
  else c.closeSocket

end Client

/-- What happens next: a handler is posted or run, an operation completes. -/
inductive Action where
  | post (f : Handler)
  | runPosted (i : ℕ)
  | resolved (ok : Bool)
  | connected (ok : Bool)
  | readDone (ok : Bool)
  | writeDone (i : ℕ) (ok : Bool)

/-- One action; `none` if the operation that completes is not outstanding. -/
def step (c : Client) : Action → Option Client
  | .post f => some { c with posted := c.posted ++ [f] }
  | .runPosted i =>
    match c.posted[i]? with
    | some f => some ({ c with posted := c.posted.eraseIdx i }.onPosted f)
    | none => none
  | .resolved ok => if c.resolving then some ({ c with resolving := false }.onResolve ok) else none
  | .connected ok =>
    if c.connecting then some ({ c with connecting := false }.onConnect ok) else none
  | .readDone ok => if 0 < c.reads then some ({ c with reads := c.reads - 1 }.onRead ok) else none
  | .writeDone i ok =>
    if i < c.writes.length then some ({ c with writes := c.writes.eraseIdx i }.onWrite ok) else none

/-! ## The messages of a run -/

/-- The messages written successfully, in order. -/
def written : List (Client × Action) → List String
  | [] => []
  | (c, .writeDone i true) :: h => written h ++ (c.writes[i]?).toList
  | _ :: h => written h

/-- The message of a posted handler. -/
def Handler.text : Handler → List String
  | .send message => [Client.line message]
  | .close => []

/-- The messages whose `send` handler has run, in order. -/
def sent : List (Client × Action) → List String
  | [] => []
  | (c, .runPosted i) :: h => sent h ++ (c.posted[i]?).elim [] Handler.text
  | _ :: h => sent h

/-- The messages posted by the main thread, in order. -/
def posted : List (Client × Action) → List String
  | [] => []
  | (_, .post f) :: h => posted h ++ f.text
  | _ :: h => posted h

/-- The posted handlers run in the order in which they were posted. -/
def Fifo (_ : Client) : Action → Prop
  | .runPosted i => i = 0
  | _ => True

end CppExperiment.AsioClient
