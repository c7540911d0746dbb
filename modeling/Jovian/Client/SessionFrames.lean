import Jovian.Client.ChannelOrder
import Jovian.Lib.Turns
import Jovian.Supervisor.Outbox

/-!
# Jovian — the frames of a session, at the client (`Session.handleFrame`)

The supervisor pushes the frames of a session into its client's `Outbox`; the client gets what that
sends, a WebSocket message at a time, and calls `handleFrame` for each line. A `message` frame goes
through the middleware before it is routed, and each middleware, and the call itself, is an `await`:
what is left of the call waits in the microtask queue. A `kernelExit` acts at once.

What is said of it is `Sound`: the frames take effect in the order they were pushed, and what was
answered before the kernel's end is not rejected by it.
-/

namespace Jovian.FrameOrder

open Transition (System)
open ExecutionQueue (JupyterMessage MsgType)
open Outbox (Text)
open Turns (Job)

/-! ## The client -/

/-- What a line says: `JSON.parse`, and for a `message` `MessageParser.parse`. -/
inductive WsFrame where
  | ready
  | message (message : JupyterMessage)
  | log
  | kernelExit (reason : String)
  | requestError (id error : String)
  /-- Not JSON, not a message, or of another type. -/
  | other
deriving DecidableEq

structure Config where
  decode : Text → WsFrame
  /-- How many there are in the chain; each is synchronous. -/
  middlewares : Nat
  queue : ExecutionQueue.Config

/-- How the promise of a `request()` is settled. -/
inductive Settlement where
  /-- With its reply: resolved, or rejected where that reports an error. -/
  | replied (message : JupyterMessage)
  | rejected (error : String)
deriving DecidableEq

/-- What happens at the client, in order. `index` says which of the lines it is. -/
inductive Action where
  /-- A callback of the execution queue. -/
  | called (e : ExecutionQueue.Event)
  | asked (id : String) (replyType : MsgType)
  | settled (id : String) (how : Settlement)
  /-- The `message` event. -/
  | message (index : Nat) (message : JupyterMessage)
  /-- The `exit` event. -/
  | exit (index : Nat) (reason : String)
  | stopped
deriving DecidableEq

/-- A call of `handleFrame` that waits: its line, and the message. -/
abbrev Waiting := Job (Nat × JupyterMessage)

structure Client where
  /-- What `handleFrame` was called for. -/
  lines : List Text := []
  microtasks : List Waiting := []
  stopped : Bool := false
  dead : Option String := none
  queue : ExecutionQueue.State := {}
  pendingRequests : InsertionMap String MsgType := []
  log : List Action := []

def STOPPED_MESSAGE : String := "Session stopped"
def TIMED_OUT_MESSAGE : String := "Timed out waiting for a reply"

variable (cfg : Config)

namespace Client

def settle (c : Client) (id : String) (how : Settlement) : Client :=
  { c with
    pendingRequests := c.pendingRequests.delete id
    log := c.log ++ [.settled id how] }

def rejectPendingRequests (c : Client) (error : String) : Client :=
  c.pendingRequests.foldl (fun c (id, _) => c.settle id (.rejected error)) c

/-- A callback of the queue, and the note that it ran. -/
def run (c : Client) (a : Action) (e : ExecutionQueue.Event) : Client :=
  { c with queue := ExecutionQueue.step cfg.queue c.queue e, log := c.log ++ [a] }

/-- The listeners of the `message` event: the session's own, then the queue's. -/
def emit (c : Client) (index : Nat) (message : JupyterMessage) : Client :=
  let c := c.run cfg (.message index message) (.message message)
  match c.pendingRequests.get message.parentMsgId with
  | some replyType =>
    if message.msgType = replyType then c.settle message.parentMsgId (.replied message) else c
  | none => c

def exit (c : Client) (index : Nat) (reason : String) : Client :=
  let c := { c with dead := some reason }.run cfg (.exit index reason) .clear
  c.rejectPendingRequests s!"Session process exited: {reason}"

/-- Up to its first `await`, or to its end. -/
def handleFrame (c : Client) (text : Text) : Client :=
  let index := c.lines.length
  let c := { c with lines := c.lines ++ [text] }
  match cfg.decode text with
  | .message message =>
    { c with microtasks := Turns.start cfg.middlewares (index, message) c.microtasks }
  | .kernelExit reason => if c.stopped then c else c.exit cfg index reason
  | .requestError id error =>
    match c.pendingRequests.get id with
    | some _ => c.settle id (.rejected error)
    | none => c
  | .ready | .log | .other => c

/-- The next microtask. -/
def microtask (c : Client) : Client :=
  let (done, microtasks) := Turns.turn c.microtasks
  let c := { c with microtasks }
  match done with
  | some (index, message) => c.emit cfg index message
  | none => c

/-- `execute()`, once the session is ready. -/
def execute (c : Client) (code : String) (options : ExecutionQueue.ExecutionOptions) : Client :=
  match c.dead with
  | some _ => c
  | none => c.run cfg (.called (.execute code options)) (.execute code options)

/-- `request()`, once the session is ready. -/
def request (c : Client) (id : String) (replyType : MsgType) : Client :=
  { c with
    pendingRequests := c.pendingRequests.set id replyType
    log := c.log ++ [.asked id replyType] }

def requestTimeout (c : Client) (id : String) : Client :=
  match c.pendingRequests.get id with
  | some _ => c.settle id (.rejected TIMED_OUT_MESSAGE)
  | none => c

/-- What `stop()`, `disconnect()` and `kill()` do at once. -/
def stop (c : Client) : Client :=
  if c.stopped then c
  else
    let c := { c with stopped := true }.run cfg .stopped .clear
    c.rejectPendingRequests STOPPED_MESSAGE

end Client

/-! ## With the supervisor's outbox -/

structure State where
  outbox : Outbox.State := {}
  /-- How many of the WebSocket messages the client has got. -/
  received : Nat := 0
  client : Client := {}

inductive Event where
  | outbox (e : Outbox.Event)
  /-- The client gets the next WebSocket message. -/
  | receive
  | microtask
  | execute (code : String) (options : ExecutionQueue.ExecutionOptions)
  | request (id : String) (replyType : MsgType)
  | requestTimeout (id : String)
  | stop
  /-- A timer of the queue, or the end of an interrupt. -/
  | timer (e : ExecutionQueue.Event)
deriving DecidableEq

/-- The lines of the next WebSocket message. -/
def State.next (s : State) : List Text :=
  match s.outbox.sent.drop s.received with
  | [] => []
  | frame :: _ => (Outbox.lines frame).filter (· ≠ [])

def receive (s : State) : State :=
  match s.outbox.sent.drop s.received with
  | [] => s
  | _ :: _ =>
    { s with
      received := s.received + 1
      client := s.next.foldl (Client.handleFrame cfg) s.client }

def step (s : State) : Event → State
  | .outbox e => { s with outbox := Outbox.step s.outbox e }
  | .receive => receive cfg s
  | .microtask => { s with client := s.client.microtask cfg }
  | .execute code options => { s with client := s.client.execute cfg code options }
  | .request id replyType => { s with client := s.client.request id replyType }
  | .requestTimeout id => { s with client := s.client.requestTimeout id }
  | .stop => { s with client := s.client.stop cfg }
  | .timer (.timeout t) => { s with client := s.client.run cfg (.called (.timeout t)) (.timeout t) }
  | .timer (.idleWaitExpired h) =>
    { s with client := s.client.run cfg (.called (.idleWaitExpired h)) (.idleWaitExpired h) }
  | .timer (.interruptCompleted t) =>
    { s with client := s.client.run cfg (.called (.interruptCompleted t)) (.interruptCompleted t) }
  | .timer _ => s

def system : System State Event := System.ofFn {} (step cfg)

/-! ## The property -/

/-- The effect of a frame, and which line that was. -/
def Action.effect? : Action → Option (Nat × WsFrame)
  | .message index m => some (index, .message m)
  | .exit index reason => some (index, .kernelExit reason)
  | _ => none

/-- What the queue was called for. -/
def Action.event? : Action → Option ExecutionQueue.Event
  | .called e => some e
  | .message _ m => some (.message m)
  | .exit _ _ | .stopped => some .clear
  | _ => none

def effects (log : List Action) : List (Nat × WsFrame) := log.filterMap Action.effect?

def events (log : List Action) : List ExecutionQueue.Event := log.filterMap Action.event?

/-- The queue, where the log was `log`. -/
def queueAt (log : List Action) : ExecutionQueue.State := ExecutionQueue.run cfg.queue (events log)

/-- The frame of line `index` has had its effect; a `kernelExit` has none once the session is
stopped. -/
def Done (log : List Action) (index : Nat) : WsFrame → Prop
  | .message message => .message index message ∈ log
  | .kernelExit reason => .exit index reason ∈ log ∨ .stopped ∈ log
  | _ => True

/-- All that was pushed has been sent and got, and no microtask is left. -/
structure AllThrough (s : State) : Prop where
  ended : s.outbox.sender = .ended
  kept : s.outbox.abandoned = false
  received : s.outbox.sent.length ≤ s.received
  idle : s.client.microtasks = []

/-- **The frames take effect in the order pushed.** -/
structure Sound (s : State) : Prop where
  in_order : (effects s.client.log).Pairwise (·.1 < ·.1)
  pushed : ∀ x ∈ effects s.client.log,
    ∃ text, s.outbox.texts[x.1]? = some text ∧ cfg.decode text = x.2
  /-- What was pushed before has had its effect before. -/
  none_passed : ∀ pre a x post, s.client.log = pre ++ a :: post → a.effect? = some x →
    ∀ k < x.1, ∀ text, s.outbox.texts[k]? = some text → Done pre k (cfg.decode text)
  complete : AllThrough s →
    ∀ k text, s.outbox.texts[k]? = some text → Done s.client.log k (cfg.decode text)
  /-- An execution whose reply and idle come before the exit resolves, unless a timer of its own or
  a `clear()` ends it first. -/
  executions : ∀ a sending b index reason c,
    s.client.log = a ++ sending :: (b ++ .exit index reason :: c) →
    ∀ x msgId, .sent x msgId ∉ (queueAt cfg a).log →
    .sent x msgId ∈ (queueAt cfg (a ++ [sending])).log →
    (∀ es e, es ++ [e] <+: events b → ¬ ExecutionQueue.Disturbs
      (ExecutionQueue.run cfg.queue (events (a ++ [sending]) ++ es)) x.ticket e) →
    (∃ reply ∈ ExecutionQueue.messagesOf msgId (events b), reply.msgType = .executeReply) →
    (∃ idle ∈ ExecutionQueue.messagesOf msgId (events b), idle.isIdle = true) →
    ∃ result, s.client.queue.settlementsOf x.ticket = [.resolved result]
  /-- A request's reply settles it, unless it was settled before, and no `exit` comes between. -/
  requests : ∀ a id replyType b index message c,
    s.client.log = a ++ .asked id replyType :: (b ++ .message index message :: c) →
    message.parentMsgId = id → message.msgType = replyType →
    (∀ replyType', .asked id replyType' ∉ b) → (∀ how, .settled id how ∉ b) →
    ∃ c', c = .settled id (.replied message) :: c'

end Jovian.FrameOrder
