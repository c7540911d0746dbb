import Jovian.Client.ChannelOrder
import Jovian.Kernel.ReplyOrder

/-!
# Jovian — a session's conversation: the execution queue and its kernel

The client's `ExecutionQueue` and the kernel's server, with what is on the way between them.
Both are the machines of their own modules; what is added here is what each of their steps
puts on the wire.

* An execution the queue sends is an `execute_request` (`sendExecute`), which reaches the
  kernel's shell socket after those sent before it.
* While code runs the interpreter publishes on iopub, or asks on stdin. When it has ended the
  kernel aborts what is queued (`stop_on_error`), sends the `execute_reply`, and then
  publishes `status: idle`. An aborted request gets its reply and nothing else.
* Each channel keeps its order; nothing is promised between two of them.

Other clients' requests arrive at the kernel too. What the kernel says to them names none of
this client's requests, and is left out: the queue ignores it.
-/

namespace Jovian.Conversation

open ExecutionQueue (QueuedExecution JupyterMessage Content Action)

/-! ## What is on the wire -/

/-- An execution the queue has sent, and the id `addon.execute` returned for it. -/
structure Sent where
  item : QueuedExecution
  msgId : String
deriving DecidableEq, Repr

/-- `SessionRegistry::sendExecute`: what the kernel reads of it. -/
def Sent.request (x : Sent) : Server.Request where
  msgType := some .executeRequest
  silent := x.item.options.silent.getD false
  stopOnError := x.item.options.stopOnError.getD false

def sent? : Action → Option Sent
  | .sent item msgId => some { item, msgId }
  | _ => none

/-- The executions the log says were sent, in order. -/
def sends (log : List Action) : List Sent := log.filterMap sent?

/-- The promises the log says were settled. -/
def settled (log : List Action) : List Nat := log.filterMap Action.settled?

/-- The log up to the sending of `x`. -/
def before (log : List Action) (x : Sent) : List Action :=
  log.takeWhile (· ≠ .sent x.item x.msgId)

/-! ## The two parties -/

structure State where
  queue : ExecutionQueue.State := {}
  /-- Sent, and not yet in the kernel's shell socket. -/
  requests : List Sent := []
  kernel : Server.State := {}
  /-- The queue's executions that have arrived, as the kernel knows them. -/
  arrived : List (Server.Message × Sent) := []
  /-- The reply of the execution that has just ended. -/
  reply : Content := {}
  /-- On the way to the client. -/
  iopub : List JupyterMessage := []
  shell : List JupyterMessage := []
  stdin : List JupyterMessage := []
  /-- What the kernel aborted, each with the execution whose failure it was aborted for. -/
  aborted : List (Server.Message × Server.Message) := []
deriving DecidableEq, Repr

inductive Channel where
  | iopub | shell | stdin
deriving DecidableEq, Repr

/-- What the interpreter sends while code runs: anything but the reply and the idle. -/
def publishable (message : JupyterMessage) : Bool :=
  message.msgType ≠ .executeReply && !message.isIdle

namespace State

variable (s : State)

/-- The id of this client's request `m`. -/
def idOf (m : Server.Message) : Option String :=
  (s.arrived.find? (·.1 = m)).map (·.2.msgId)

/-- The kernel sends `message` about its request `m`, if that is this client's. -/
def emit (m : Server.Message) (channel : Channel) (message : JupyterMessage) : State :=
  match s.idOf m with
  | none => s
  | some parentMsgId =>
    let message := { message with parentMsgId }
    match channel with
    | .iopub => { s with iopub := s.iopub ++ [message] }
    | .shell => { s with shell := s.shell ++ [message] }
    | .stdin => { s with stdin := s.stdin ++ [message] }

end State

/-- `{"status": "aborted"}` -/
def abortedReply : JupyterMessage where
  msgType := .executeReply
  parentMsgId := ""
  content := { status := some .aborted }

def executeReply (content : Content) : JupyterMessage :=
  { msgType := .executeReply, parentMsgId := "", content }

/-- `publishStatus(…, "idle")` -/
def idleStatus : JupyterMessage where
  msgType := .status
  parentMsgId := ""
  content := { executionState := some "idle" }

/-- What the main thread's step from `pc` sends, and notes. `content` is the reply the
interpreter makes, `error` whether it is an error. -/
def speak (s : State) (pc : Server.MainPc) (error : Bool) (content : Content) : State :=
  match pc with
  | .executing _ => { s with reply := { content with status := some (if error then .error else .ok) } }
  | .abortDeferred m _ =>
    match s.kernel.deferredShell with
    | [] => s
    | d :: _ => { s with aborted := s.aborted ++ [(d, m)] }
  | .abortSocket m =>
    match s.kernel.shell with
    | [] => s
    | d :: _ => { s with aborted := s.aborted ++ [(d, m)] }
  | .abortingDeferred _ _ d | .abortingSocket _ d =>
    if d.abortable then s.emit d .shell abortedReply else s
  | .replying m => (s.emit m .shell (executeReply s.reply)).emit m .iopub idleStatus
  | _ => s

/-! ## Steps -/

inductive Event where
  /-- A callback of the queue's own: not a message. -/
  | client (e : ExecutionQueue.Event)
  /-- The client gets the next message of a channel. -/
  | receive (channel : Channel)
  /-- The next request on its way reaches the kernel. -/
  | arrive
  /-- A thread of the kernel goes on, or another client's request arrives. -/
  | kernel (e : Server.Event) (content : Content)
  /-- The interpreter publishes, or asks, while it runs code. -/
  | publish (message : JupyterMessage)
deriving DecidableEq, Repr

variable (cfg : ExecutionQueue.Config) (accepts : Server.MsgType → Bool)

/-- A callback of the queue; what it sends is on its way. -/
def callback (s : State) (e : ExecutionQueue.Event) : State :=
  let queue := ExecutionQueue.step cfg s.queue e
  { s with queue, requests := s.requests ++ (sends queue.log).drop (sends s.queue.log).length }

def receive (s : State) : Channel → State
  | .iopub =>
    match s.iopub with
    | [] => s
    | message :: rest => callback cfg { s with iopub := rest } (.message message)
  | .shell =>
    match s.shell with
    | [] => s
    | message :: rest => callback cfg { s with shell := rest } (.message message)
  | .stdin =>
    match s.stdin with
    | [] => s
    | message :: rest => callback cfg { s with stdin := rest } (.message message)

def arrive (s : State) : State :=
  match s.requests with
  | [] => s
  | x :: rest =>
    { s with
      requests := rest
      kernel := Server.step accepts s.kernel (.arriveShell x.request)
      arrived := s.arrived ++ [(⟨s.kernel.arrivals, x.request⟩, x)] }

def kernelStep (s : State) (e : Server.Event) (content : Content) : State :=
  let t := match e with
    | .main error _ => speak s s.kernel.main error content
    | _ => s
  { t with kernel := Server.step accepts s.kernel e }

def publish (s : State) (message : JupyterMessage) : State :=
  match s.kernel.main with
  | .executing m =>
    if publishable message then
      s.emit m (if message.msgType = .inputRequest then .stdin else .iopub) message
    else s
  | _ => s

def step (s : State) : Event → State
  | .client (.message _) => s
  | .client e => callback cfg s e
  | .receive channel => receive cfg s channel
  | .arrive => arrive accepts s
  | .kernel e content => kernelStep accepts s e content
  | .publish message => publish s message

def run (es : List Event) : State :=
  es.foldl (step cfg accepts) {}

def system : Transition.System State Event :=
  .ofFn {} (step cfg accepts)

end Jovian.Conversation
