import Jovian.Lib.Transition

/-!
# Jovian — a kernel's server (`adrastea/transport/server/server_zmq_impl.cpp`)

Three threads pass a kernel's shell and control messages between them: the main thread, which
polls the sockets (`pollOnceImpl`, `pollChannels`), handles what it reads and runs code; the
watcher, which reads both sockets while code runs (`watchControl`); and the busy-request
thread (`answerBusyRequests`). A step of the model is what one of them does between two points
at which another can come in. `m_controlMutex` is held by the watcher for one of its
iterations, and by the main thread for the whole of a `zmq::poll`.

* Messages are authenticated ones: `deserialize` throws at any other, which is then dropped.
  A message is known by the order of its arrival (`id`).
* The handlers are the ones `ServerZmq` and `KernelCore` register: an interrupt, and a busy
  request, go through the ordinary listeners. A listener ends in one step, except that an
  `execute_request` runs until the interpreter replies.
* An interpreter that only queues the code (R's own loop) does not poll before it has replied,
  so the main thread is in its execution until then.
* Only the main thread sets `m_requestStop`, so `pollChannels`' own tests of it, after
  `pollOnceImpl`'s, are left out; and `abortQueue` always finds the mutex free, the watcher
  having been stopped before it.
* A poll's flags can lag behind the sockets, so they are the event's; what is flagged is there.
-/

namespace Jovian.Server

inductive Channel where
  | shell | control
deriving DecidableEq, Repr

/-- The message types the kernel has a handler for, and the others. -/
inductive MsgType where
  | executeRequest
  | completeRequest
  | inspectRequest
  | historyRequest
  | isCompleteRequest
  | commInfoRequest
  | commOpen
  | commClose
  | commMsg
  | kernelInfoRequest
  | shutdownRequest
  | interruptRequest
  | debugRequest
  | other (underscore : Bool)
deriving DecidableEq, Repr

/-- What a client sends; `msgType` is `none` where `header().value("msg_type", "")` throws. -/
structure Request where
  msgType : Option MsgType
  silent : Bool := false
  stopOnError : Bool := false
deriving DecidableEq, Repr

structure Message where
  id : Nat
  request : Request
deriving DecidableEq, Repr

def Message.msgType (m : Message) : Option MsgType :=
  m.request.msgType

/-! ## The interpreters' busy filters -/

/-- `PyInterpreter::answersWhileBusyImpl` -/
def carpo : MsgType → Bool
  | .completeRequest | .inspectRequest | .isCompleteRequest => true
  | _ => false

/-- `StataInterpreter::answersWhileBusyImpl` -/
def callisto : MsgType → Bool
  | .isCompleteRequest => true
  | _ => false

/-! ## The threads -/

/-- Who a message is handed to. -/
inductive Route where
  | interruptHandler
  | busyHandler
  | shellListener
  | controlListener
  | abortCallback
deriving DecidableEq, Repr

/-- A message handed over, and what it was handed to being done with it. -/
inductive Entry where
  | handed (m : Message) (route : Route)
  | finished (m : Message)
deriving DecidableEq, Repr

/-- Where the watcher is; it holds the mutex unless it is waiting. -/
inductive WatcherPc where
  | waiting
  | control
  | interrupting (m : Message)
  | shell
deriving DecidableEq, Repr

/-- Where the main thread is. `again` is whether the reply of the execution is the second one,
made because an abort callback threw in the first. -/
inductive MainPc where
  | pollOnce
  | polling
  | handling (m : Message)
  | executing (m : Message)
  | ending (m : Message) (error : Bool)
  | abortDeferred (m : Message) (again : Bool)
  | abortingDeferred (m : Message) (again : Bool) (d : Message)
  | abortSocket (m : Message)
  | abortingSocket (m : Message) (d : Message)
  | replying (m : Message)
  | ended
deriving DecidableEq, Repr

/-- Where the messages are. -/
structure Queues where
  shell : List Message := []
  control : List Message := []
  deferredShell : List Message := []
  deferredControl : List Message := []
  busyQueue : List Message := []
  /-- What arrived on each socket, in order. -/
  arrivedShell : List Message := []
  arrivedControl : List Message := []
  /-- What the watcher read and could not look at. -/
  droppedShell : List Message := []
  droppedControl : List Message := []
  log : List Entry := []
deriving DecidableEq, Repr

structure State extends Queues where
  busyThread : Option Message := none
  watching : Bool := false
  requestStop : Bool := false
  watcher : WatcherPc := .waiting
  main : MainPc := .pollOnce
deriving DecidableEq, Repr

/-- The number of arrivals so far. -/
def Queues.arrivals (q : Queues) : Nat :=
  q.arrivedShell.length + q.arrivedControl.length

namespace State

def hand (s : State) (m : Message) (route : Route) : State :=
  { s with log := s.log ++ [.handed m route] }

def finish (s : State) (m : Message) : State :=
  { s with log := s.log ++ [.finished m] }

end State

/-- `pollControlOnce` -/
def pollControlOnce (s : State) : State :=
  match s.control with
  | [] => { s with watcher := .shell }
  | m :: rest =>
    let s := { s with control := rest }
    match m.msgType with
    | none => { s with droppedControl := s.droppedControl ++ [m], watcher := .shell }
    | some t =>
      -- answered now, on this thread
      if t = .interruptRequest ∨ t = .debugRequest then
        { s.hand m .interruptHandler with watcher := .interrupting m }
      else { s with deferredControl := s.deferredControl ++ [m], watcher := .shell }

/-- `pollShellOnce` -/
def pollShellOnce (accepts : MsgType → Bool) (s : State) : State :=
  match s.shell with
  | [] => { s with watcher := .waiting }
  | m :: rest =>
    let s := { s with shell := rest, watcher := .waiting }
    match m.msgType with
    | none => { s with droppedShell := s.droppedShell ++ [m] }
    | some t =>
      -- once anything had to wait, everything behind it waits too
      if s.deferredShell = [] ∧ accepts t = true then { s with busyQueue := s.busyQueue ++ [m] }
      else { s with deferredShell := s.deferredShell ++ [m] }

/-- `watchControl` -/
def watch (accepts : MsgType → Bool) (s : State) : State :=
  match s.watcher with
  | .waiting => if s.watching ∧ s.main ≠ .polling then { s with watcher := .control } else s
  | .control => pollControlOnce s
  | .interrupting m => { s.finish m with watcher := .shell }
  | .shell => pollShellOnce accepts s

/-- `answerBusyRequests`; its handler's reply takes the mutex. -/
def answerBusy (s : State) : State :=
  match s.busyThread with
  | none =>
    match s.busyQueue with
    | [] => s
    | m :: rest => { s.hand m .busyHandler with busyQueue := rest, busyThread := some m }
  | some m =>
    if s.watcher = .waiting ∧ s.main ≠ .polling then { s.finish m with busyThread := none } else s

/-- `pollChannels` up to its `zmq::poll`: what was set aside during an execution comes first. -/
def pollDeferred (s : State) : State :=
  match s.deferredControl with
  | m :: rest =>
    { s.hand m .controlListener with deferredControl := rest, main := .handling m }
  | [] =>
    match s.deferredShell with
    | m :: rest => { s.hand m .shellListener with deferredShell := rest, main := .handling m }
    | [] => { s with main := .polling }

/-- `pollChannels` after its `zmq::poll` has flagged the sockets. -/
def pollSockets (s : State) (controlFlag shellFlag : Bool) : State :=
  match controlFlag, s.control, shellFlag, s.shell with
  | true, m :: rest, _, _ =>
    { s.hand m .controlListener with control := rest, main := .handling m }
  | _, _, true, m :: rest =>
    { s.hand m .shellListener with shell := rest, main := .handling m }
  | _, _, _, _ => { s with main := .pollOnce }

/-- Whether `abortRequest` can make the name of the reply: else it throws. -/
def Message.abortable (m : Message) : Bool :=
  match m.msgType with
  | none | some (.other false) => false
  | some _ => true

/-- The main thread. `a` and `b` are the flags of a poll; `a` is whether the execution's reply
is an error, or the shutdown's is `ok`. -/
def main (s : State) (a b : Bool) : State :=
  match s.main with
  | .pollOnce =>
    if s.requestStop then { s with main := .ended }
    else if s.watcher ≠ .waiting then s
    else pollDeferred s
  | .polling => pollSockets s a b
  | .handling m =>
    match m.msgType with
    -- the exception leaves the loop
    | none => { s with main := .ended }
    | some .executeRequest => { s with watching := true, main := .executing m }
    | some .shutdownRequest => { s.finish m with requestStop := s.requestStop || a, main := .pollOnce }
    | some _ => { s.finish m with main := .pollOnce }
  | .executing m => { s with watching := false, main := .ending m a }
  | .ending m error =>
    if s.watcher ≠ .waiting then s
    else if !m.request.silent && error && m.request.stopOnError then
      { s with main := .abortDeferred m false }
    else { s with main := .replying m }
  | .abortDeferred m again =>
    match s.deferredShell with
    | [] => { s with main := .abortSocket m }
    | d :: rest =>
      { s.hand d .abortCallback with deferredShell := rest, main := .abortingDeferred m again d }
  | .abortingDeferred m again d =>
    if d.abortable then { s.finish d with main := .abortDeferred m again }
    -- the exception ends `abortQueue`: `executeRequest` replies an error, and so aborts, again
    else if again = false then { s.finish d with main := .abortDeferred m true }
    else { (s.finish d).finish m with main := .pollOnce }
  | .abortSocket m =>
    match s.shell with
    | [] => { s with main := .replying m }
    | d :: rest => { s.hand d .abortCallback with shell := rest, main := .abortingSocket m d }
  | .abortingSocket m d => { s.finish d with main := .abortSocket m }
  | .replying m => { s.finish m with main := .pollOnce }
  | .ended => s

/-! ## The server -/

/-- What can happen next. -/
inductive Event where
  | arriveShell (request : Request)
  | arriveControl (request : Request)
  | watch
  | busy
  | main (a b : Bool)
deriving DecidableEq, Repr

def step (accepts : MsgType → Bool) (s : State) : Event → State
  | .arriveShell request =>
    let m : Message := ⟨s.arrivals, request⟩
    { s with shell := s.shell ++ [m], arrivedShell := s.arrivedShell ++ [m] }
  | .arriveControl request =>
    let m : Message := ⟨s.arrivals, request⟩
    { s with control := s.control ++ [m], arrivedControl := s.arrivedControl ++ [m] }
  | .watch => watch accepts s
  | .busy => answerBusy s
  | .main a b => main s a b

/-- The state after the events `es`, from a kernel that has just started. -/
def run (accepts : MsgType → Bool) (es : List Event) : State :=
  es.foldl (step accepts) {}

def system (accepts : MsgType → Bool) : Transition.System State Event :=
  .ofFn {} (step accepts)

end Jovian.Server
