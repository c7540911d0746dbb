import Jovian.Lib.InsertionMap
import Jovian.Lib.Transition

/-!
# Jovian — the client's execution queue (`lib/execution/execution-queue.ts`)

`ExecutionQueue` sends one `execute()` call at a time to the kernel and settles the
promise each call returned. JavaScript runs one callback to its end before the next, so
the queue is a machine: its state, and one transition for each callback that can run —
`execute()`, `clear()`, a message, a timeout, the end of the wait for an idle, and the
completion of the promise a timeout's interrupt returned.

Three things the source leaves to the language are spelled out.

* **Promises.** An execution's `resolve`/`reject` pair is named by a `ticket`, given in
  the order the calls are accepted; `log` records what happens to it.
* **Closures.** `finish` and `reject` of a pending execution capture its promise, so a
  `PendingExecution` carries the ticket; `finishNow` captures the reply it was made for
  and its own `idleFallback` timer, so it is the pair `FinishNow` of the two.
* **Timers.** An armed timer is an entry of `timers` (the execution's timeout) or
  `idleWaits` (a reply's wait for the idle); `clearTimeout` removes it, and only an armed
  timer fires. When it fires is not modelled: at any moment, or never.

`addon.execute` and whether an `onTimeout` was passed are parameters (`Config`): the
addon may throw, return no id, or return any id at all.
-/

namespace Jovian.ExecutionQueue

/-! ## Messages, options and results -/

/-- The message types `handleMessage` tells apart. -/
inductive MsgType where
  | inputRequest | stream | executeResult | displayData | updateDisplayData | clearOutput
  | status | error | executeReply
  | other (name : String)
deriving DecidableEq, Repr

/-- `execute_reply`'s `status`; a missing or empty one is `none` where it is read. -/
inductive ReplyStatus where
  | ok | error | aborted
  | other (name : String)
deriving DecidableEq, Repr

/-- What the queue reads of a message's `content`; `none` where it has no such member. -/
structure Content where
  executionState : Option String := none
  evalue : Option String := none
  executionCount : Option Int := none
  status : Option ReplyStatus := none
  userExpressions : Option (List (String × String)) := none
deriving DecidableEq, Repr

/-- A message of the kernel; `raw` is its text. -/
structure JupyterMessage where
  msgType : MsgType
  parentMsgId : String
  content : Content := {}
  raw : String := ""
deriving DecidableEq, Repr

/-- `ExecutionOptions`: what the queue reads, and the `silent` the kernel reads. -/
structure ExecutionOptions where
  silent : Option Bool := none
  stopOnError : Option Bool := none
  timeout : Option Int := none
  interruptOnTimeout : Option Bool := none
deriving DecidableEq, Repr

structure ExecutionResult where
  success : Bool
  output : List JupyterMessage
  executionCount : Option Int := none
  status : Option ReplyStatus := none
  aborted : Bool := false
  error : Option String := none
  userExpressions : Option (List (String × String)) := none
deriving DecidableEq, Repr

/-- How a promise was settled. -/
inductive Outcome where
  | resolved (result : ExecutionResult)
  | rejected (error : String)
deriving DecidableEq, Repr

structure QueuedExecution where
  code : String
  options : ExecutionOptions
  ticket : Nat
deriving DecidableEq, Repr

/-- `finishNow` of one `execute_reply`: the reply, and the handle of its `idleFallback`. -/
structure FinishNow where
  handle : Nat
  reply : JupyterMessage
deriving DecidableEq, Repr

structure PendingExecution where
  ticket : Nat
  stopOnError : Bool
  output : List JupyterMessage := []
  timer : Option Nat
  idle : Bool := false
  finishWhenIdle : Option FinishNow := none
  restartIdleWait : Option FinishNow := none
deriving DecidableEq, Repr

/-- An armed execution timeout. -/
structure Timer where
  item : QueuedExecution
  msgId : String
deriving DecidableEq, Repr

/-- An armed `idleFallback`: the `pending` it belongs to is named by its ticket. -/
structure IdleWait where
  finishNow : FinishNow
  ticket : Nat
deriving DecidableEq, Repr

/-! ## The queue's state -/

/-- What a call of `addon.execute` does: it throws, or returns an id (`""`: none). -/
inductive SendResult where
  | threw (error : String)
  | returned (msgId : String)
deriving DecidableEq, Repr

/-- What happens to the executions, in order. -/
inductive Action where
  | refused (error : String)
  | accepted (item : QueuedExecution)
  | sent (item : QueuedExecution) (msgId : String)
  | settled (ticket : Nat) (outcome : Outcome)
deriving DecidableEq, Repr

/-- The constructor's arguments. `addon n item` is what the `n`-th call of
`addon.execute` does, `onTimeout` whether the owner passed one. -/
structure Config where
  maxSize : Nat := 100
  addon : Nat → QueuedExecution → SendResult
  onTimeout : Bool := true

structure State where
  queue : List QueuedExecution := []
  executing : Bool := false
  pending : InsertionMap String PendingExecution := []
  timers : List Timer := []
  idleWaits : List IdleWait := []
  /-- Timed-out executions whose `interrupted` promise is still to complete. -/
  interrupted : List Nat := []
  sends : Nat := 0
  nextHandle : Nat := 0
  nextTicket : Nat := 0
  log : List Action := []
deriving DecidableEq, Repr

def DEFAULT_TIMEOUT_MS : Int := 30000
def ABORTED_MESSAGE : String := "Execution aborted: an earlier execution failed with stopOnError"
def NO_ID_MESSAGE : String := "Native addon did not return a message id for this execution"
def FULL_MESSAGE : String := "Execution queue is full"
def CLEARED_MESSAGE : String := "Queue cleared"

namespace State

/-- `resolve` or `reject` of the promise `ticket`. -/
def settle (s : State) (ticket : Nat) (outcome : Outcome) : State :=
  { s with log := s.log ++ [.settled ticket outcome] }

/-- One promise after another settled. -/
def settleAll (s : State) (settlements : List (Nat × Outcome)) : State :=
  { s with log := s.log ++ settlements.map fun o => .settled o.1 o.2 }

/-- `clearTimeout` of an execution's timer. -/
def clearTimer (s : State) (ticket : Nat) : State :=
  { s with timers := s.timers.filter (·.item.ticket ≠ ticket) }

/-- What `finish`, `reject` and a timeout do of one pending execution: its timer is gone,
it is taken out of `pending` and its promise is settled. -/
def retire (s : State) (msgId : String) (ticket : Nat) (outcome : Outcome) : State :=
  { s.clearTimer ticket with pending := s.pending.delete msgId }.settle ticket outcome

/-- `clearTimeout(idleFallback)`. -/
def clearIdleWait (s : State) (handle : Nat) : State :=
  { s with idleWaits := s.idleWaits.filter (·.finishNow.handle ≠ handle) }

/-- `restartIdleWait` of `f`: its `idleFallback` cleared and set again. -/
def armIdleWait (s : State) (ticket : Nat) (f : FinishNow) : State :=
  { s with idleWaits := (s.clearIdleWait f.handle).idleWaits ++ [{ finishNow := f, ticket }] }

end State

/-! ## `processNext` -/

/-- `item.options.timeout ?? DEFAULT_TIMEOUT_MS` -/
def timeoutMs (item : QueuedExecution) : Int :=
  item.options.timeout.getD DEFAULT_TIMEOUT_MS

/-- The rest of `processNext` once `addon.execute` has returned `msgId`: the timeout is
armed and the execution is pending. -/
def startPending (s : State) (item : QueuedExecution) (msgId : String) : State :=
  let timer := if timeoutMs item > 0 then some item.ticket else none
  { s with
    timers := if timeoutMs item > 0 then s.timers ++ [{ item, msgId }] else s.timers
    pending := s.pending.set msgId
      { ticket := item.ticket, stopOnError := item.options.stopOnError = some true, timer }
    log := s.log ++ [.sent item msgId] }

variable (cfg : Config)

/-- `processNext` on the queue `queue`: the first item whose send succeeds goes out, the
ones before it are rejected. -/
def processQueue : List QueuedExecution → State → State
  | [], s => { s with queue := [], executing := false }
  | item :: rest, s =>
    let s' := { s with queue := rest, executing := true, sends := s.sends + 1 }
    match cfg.addon s.sends item with
    | .threw error => processQueue rest (s'.settle item.ticket (.rejected error))
    | .returned msgId =>
      if msgId = "" then processQueue rest (s'.settle item.ticket (.rejected NO_ID_MESSAGE))
      else startPending s' item msgId

def processNext (s : State) : State :=
  processQueue cfg s.queue s

/-! ## The callbacks -/

def execute (s : State) (code : String) (options : ExecutionOptions) : State :=
  if s.queue.length ≥ cfg.maxSize then
    { s with log := s.log ++ [.refused FULL_MESSAGE] }
  else
    let item : QueuedExecution := { code, options, ticket := s.nextTicket }
    let s := { s with
      queue := s.queue ++ [item]
      nextTicket := s.nextTicket + 1
      log := s.log ++ [.accepted item] }
    if s.executing then s else processNext cfg s

/-- `pending.finish(result)` of the execution `p` pending under `msgId`. -/
def finish (s : State) (msgId : String) (p : PendingExecution) (result : ExecutionResult) :
    State :=
  processNext cfg (s.retire msgId p.ticket (.resolved result))

/-- The result of an execution aborted in the queue. -/
def abortedResult : ExecutionResult where
  success := false
  status := some .aborted
  aborted := true
  output := []
  error := some ABORTED_MESSAGE

def abortQueued (s : State) : State :=
  let aborted := s.queue.map fun item => (item.ticket, Outcome.resolved abortedResult)
  { s with queue := [] }.settleAll aborted

/-- `if (pending.stopOnError) this.abortQueued()`, under the caller's own condition. -/
def abortQueuedIf (s : State) (cond : Bool) : State :=
  if cond then abortQueued s else s

/-- The result `finishNow` makes of the reply. -/
def replyResult (output : List JupyterMessage) (reply : Content) : ExecutionResult where
  success := reply.status = some .ok
  output := output
  executionCount := reply.executionCount
  status := reply.status
  aborted := reply.status = some .aborted
  error := if reply.status = some .aborted then some ABORTED_MESSAGE else none
  userExpressions := reply.userExpressions.filter (0 < ·.length)

/-- `finishNow()`, on the execution `p` pending under `msgId`. -/
def finishNow (s : State) (msgId : String) (p : PendingExecution) (f : FinishNow) : State :=
  let s := s.clearIdleWait f.handle
  let s := abortQueuedIf s (f.reply.content.status ≠ some .ok && p.stopOnError)
  finish cfg s msgId p (replyResult p.output f.reply.content)

/-- The result of an `error` message. -/
def errorResult (output : List JupyterMessage) (content : Content) : ExecutionResult where
  success := false
  status := some .error
  output := output
  error := some (content.evalue.getD "R execution error")

/-- The `switch` of `handleMessage`, for the execution `p` the message belongs to. -/
def dispatchMessage (s : State) (message : JupyterMessage) (p : PendingExecution) : State :=
  let msgId := message.parentMsgId
  match message.msgType with
  | .inputRequest =>
    match p.timer with
    | some timer =>
      { s.clearTimer timer with pending := s.pending.set msgId { p with timer := none } }
    | none => s
  | .stream | .executeResult | .displayData | .updateDisplayData | .clearOutput =>
    { s with pending := s.pending.set msgId { p with output := p.output ++ [message] } }
  | .status =>
    if message.content.executionState = some "idle" then
      let p := { p with idle := true }
      match p.finishWhenIdle with
      | some f => finishNow cfg s msgId p f
      | none => { s with pending := s.pending.set msgId p }
    else s
  | .error =>
    let output := p.output ++ [message]
    finish cfg (abortQueuedIf s p.stopOnError) msgId { p with output }
      (errorResult output message.content)
  | .executeReply =>
    let f : FinishNow := { handle := s.nextHandle, reply := message }
    let s := { s with nextHandle := s.nextHandle + 1 }
    if p.idle || message.content.status = some .aborted then finishNow cfg s msgId p f
    else
      let p := { p with finishWhenIdle := some f, restartIdleWait := some f }
      { s with pending := s.pending.set msgId p }.armIdleWait p.ticket f
  | .other _ => s

def handleMessage (s : State) (message : JupyterMessage) : State :=
  match s.pending.get message.parentMsgId with
  | none => s
  | some p =>
    let s := match p.restartIdleWait with
      | some f => s.armIdleWait p.ticket f
      | none => s
    dispatchMessage cfg s message p

def clear (s : State) : State :=
  let queued := s.queue.map fun item => (item.ticket, Outcome.rejected CLEARED_MESSAGE)
  let s := { s with queue := [], executing := false }.settleAll queued
  -- `pending.forEach(pending => pending.reject(...))`
  s.pending.foldl (fun s (msgId, p) => s.retire msgId p.ticket (.rejected CLEARED_MESSAGE)) s

/-- Whether a timeout interrupts the kernel. -/
def interrupting (item : QueuedExecution) : Bool :=
  item.options.interruptOnTimeout ≠ some false && cfg.onTimeout

/-- The callback of an armed timeout. Its `interrupted` promise — the interrupt's own, or
a resolved one — is left to complete. -/
def timeout (s : State) (t : Timer) : State :=
  let message := s!"Execution timed out after {timeoutMs t.item}ms" ++
    if interrupting cfg t.item then " (the kernel was interrupted)" else ""
  { s.retire t.msgId t.item.ticket (.rejected message) with
    interrupted := s.interrupted ++ [t.item.ticket] }

/-- The `.then(() => this.processNext())` of the timed-out execution `ticket`. -/
def interruptCompleted (s : State) (ticket : Nat) : State :=
  processNext cfg { s with interrupted := s.interrupted.erase ticket }

/-- The callback of an armed `idleFallback`. -/
def idleWaitExpired (s : State) (w : IdleWait) : State :=
  let s := s.clearIdleWait w.finishNow.handle
  match s.pending.get w.finishNow.reply.parentMsgId with
  | some p => if p.ticket = w.ticket then finishNow cfg s w.finishNow.reply.parentMsgId p w.finishNow else s
  | none => s

/-! ## The machine -/

/-- A callback that can run next. -/
inductive Event where
  | execute (code : String) (options : ExecutionOptions)
  | clear
  | message (message : JupyterMessage)
  | timeout (ticket : Nat)
  | interruptCompleted (ticket : Nat)
  | idleWaitExpired (handle : Nat)
deriving DecidableEq, Repr

/-- One callback. A timer that is not armed, or a promise that is not outstanding, does
nothing. -/
def step (s : State) : Event → State
  | .execute code options => execute cfg s code options
  | .clear => clear s
  | .message message => handleMessage cfg s message
  | .timeout ticket =>
    match s.timers.find? (·.item.ticket = ticket) with
    | some t => timeout cfg s t
    | none => s
  | .interruptCompleted ticket =>
    if ticket ∈ s.interrupted then interruptCompleted cfg s ticket else s
  | .idleWaitExpired handle =>
    match s.idleWaits.find? (·.finishNow.handle = handle) with
    | some w => idleWaitExpired cfg s w
    | none => s

/-- The state after the callbacks `es`, from a new queue. -/
def run (es : List Event) : State :=
  es.foldl (step cfg) {}

/-- The queue as a transition system. -/
def system : Transition.System State Event :=
  .ofFn {} (step cfg)

/-! ## What the log says -/

namespace Action

def accepted? : Action → Option QueuedExecution
  | .accepted item => some item
  | _ => none

def sent? : Action → Option QueuedExecution
  | .sent item _ => some item
  | _ => none

def settled? : Action → Option Nat
  | .settled ticket _ => some ticket
  | _ => none

end Action

namespace State

/-- The executions `execute()` accepted, in order. -/
def accepted (s : State) : List QueuedExecution := s.log.filterMap Action.accepted?

/-- The executions sent to the kernel, in order. -/
def sent (s : State) : List QueuedExecution := s.log.filterMap Action.sent?

/-- The promises settled, in order. -/
def settled (s : State) : List Nat := s.log.filterMap Action.settled?

/-- The executions sent to the kernel and not finished: neither resolved nor rejected, by
a reply, an error, a timeout or `clear()`. -/
def inFlight (s : State) : List QueuedExecution :=
  s.sent.filter (·.ticket ∉ s.settled)

/-- `get busy()` -/
def busy (s : State) : Bool := s.executing

/-- `get size()` -/
def size (s : State) : Nat := s.queue.length

end State

end Jovian.ExecutionQueue
