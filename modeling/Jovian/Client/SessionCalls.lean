import Jovian.Client.Promises

/-!
# Jovian — `execute()` and `request()` of a session (`Session`)

Both wait for `readyPromise` before they do anything: `execute()` then looks whether the kernel has
ended and hands the code to the execution queue, `request()` makes an entry of `pendingRequests` and
sends its frame. `stop()`, `disconnect()`, `kill()`, a `kernelExit` and the loss of the connection
clear both, and `restart()` does too before it waits for the supervisor.

* **`Connection`** is what a session knows of its sockets: `promises` is every `readyPromise` it has
  had and `sockets` every `this.ws`, the last of each being the one in the field.
* **`Calls`** is what the calls are part of.

An event is a callback, or what is left of a call after its `await`. What is said of them is `Sound`
of the states and `SoundStep` of the steps, in the runs in which what awaits an ending, or comes
after it, is `caught`.
-/

namespace Jovian.SessionCalls

open Transition (System)
open ExecutionQueue (Content JupyterMessage MsgType ExecutionOptions ExecutionResult Outcome)

/-! ## The connection -/

/-- A promise of `connect()`, or of a `restart()`. -/
inductive Ready where
  | pending | resolved
  | rejected (error : String)
deriving DecidableEq, Repr

/-- A WebSocket: the promise its `ready` frame resolves. -/
structure Socket where
  ready : Nat
  closed : Bool := false
deriving DecidableEq, Repr

structure Connection where
  stopped : Bool := false
  dead : Option String := none
  promises : List Ready := [.pending]
  sockets : List Socket := [{ ready := 0 }]
  /-- The restarts that wait for the supervisor, by their promises. -/
  restarting : List Nat := []
deriving DecidableEq, Repr

namespace Connection

variable (c : Connection)

/-- `this.readyPromise` -/
def readyPromise : Nat := c.promises.length - 1

/-- `this.ws` -/
def ws : Nat := c.sockets.length - 1

def promise (p : Nat) : Ready := c.promises.getD p .pending

/-- The session was stopped, or its kernel has ended and no restart has begun. -/
def ended : Bool := c.stopped || c.dead.isSome

/-- `resolve` or `reject` of a promise: what is settled stays. -/
def settle (p : Nat) (r : Ready) : Connection :=
  { c with promises := c.promises.modify p fun | .pending => r | settled => settled }

def close (ws : Nat) : Connection :=
  { c with sockets := c.sockets.modify ws fun socket => { socket with closed := true } }

/-- Whether the socket is `this.ws`, and open. -/
def carries (ws : Nat) : Bool :=
  ws = c.ws && c.sockets[ws]?.any fun socket => !socket.closed

end Connection

/-! ## The calls -/

inductive Kind where
  | execute (code : String) (options : ExecutionOptions)
  | request (msgType : String) (timeout : Option Int)
deriving DecidableEq, Repr

def Kind.isExecute : Kind → Bool
  | .execute _ _ => true
  | .request _ _ => false

/-- How far a call is. -/
inductive Phase where
  /-- At its `await` of a `readyPromise`. -/
  | awaiting (ready : Nat)
  /-- Its promise is the queue's `ticket`; the socket was `ws`. -/
  | queued (ws ticket : Nat)
  /-- Its promise is that of the entry `id`; the socket was `ws`. -/
  | asked (ws : Nat) (id : String)
  /-- It threw after its `await`. -/
  | thrown
deriving DecidableEq, Repr

structure Call where
  kind : Kind
  phase : Phase
deriving DecidableEq, Repr

/-- How the promise of a call is settled. -/
inductive Settlement where
  | executed (result : ExecutionResult)
  | replied (content : Content)
  | rejected (error : String)
deriving DecidableEq, Repr

def Settlement.ofOutcome : Outcome → Settlement
  | .resolved result => .executed result
  | .rejected error => .rejected error

/-- `PendingRequest`; its timer is armed as long as it is there. -/
structure PendingRequest where
  call : Nat
  replyType : String
  timeoutMs : Int
deriving DecidableEq, Repr

structure Calls where
  all : List Call := []
  queue : ExecutionQueue.State := {}
  pendingRequests : InsertionMap String PendingRequest := []
  /-- How many ids `request()` has made. -/
  requests : Nat := 0
  /-- The promises of calls that the queue does not settle, as they are settled. -/
  log : List (Nat × Settlement) := []
deriving DecidableEq, Repr

/-- `executeId` and `requestId` are `randomUUID()` in the addon and in `request()`; `executeThrows`
and `requestThrows` what `this.send` throws there, on a socket that is not open yet or for what
`JSON.stringify` does not take. -/
structure Config where
  sessionId : String := ""
  queueSize : Nat := 100
  executeId : Nat → String
  requestId : Nat → String
  executeThrows : Nat → Option String := fun _ => none
  requestThrows : Nat → Option String := fun _ => none

/-- `new ExecutionQueue(wsAddon, this, options.queueSize, this.logger, () => this.interrupt())` -/
def Config.queue (cfg : Config) : ExecutionQueue.Config where
  maxSize := cfg.queueSize
  addon n _ :=
    match cfg.executeThrows n with
    | some error => .threw error
    | none => .returned (cfg.executeId n)

def DEFAULT_REQUEST_TIMEOUT_MS : Int := 10000

/-- `requestType.replace(/_request$/, '_reply')` -/
def replyTypeOf (requestType : String) : String :=
  let chars := requestType.toList
  if "_request".toList.isSuffixOf chars then
    String.ofList (chars.take (chars.length - "_request".length)) ++ "_reply"
  else requestType

/-- `message.msgType` -/
def msgTypeName : MsgType → String
  | .inputRequest => "input_request"
  | .stream => "stream"
  | .executeResult => "execute_result"
  | .displayData => "display_data"
  | .updateDisplayData => "update_display_data"
  | .clearOutput => "clear_output"
  | .status => "status"
  | .error => "error"
  | .executeReply => "execute_reply"
  | .other name => name

variable (cfg : Config)

namespace Calls

variable (s : Calls)

/-- `resolve` or `reject` of a call's promise: what is settled stays. -/
def settle (i : Nat) (how : Settlement) : Calls :=
  if s.log.any (·.1 = i) then s else { s with log := s.log ++ [(i, how)] }

def setPhase (i : Nat) (phase : Phase) : Calls :=
  { s with all := s.all.modify i fun call => { call with phase } }

/-- The call throws after its `await`. -/
def throw (i : Nat) (error : String) : Calls :=
  (s.setPhase i .thrown).settle i (.rejected error)

/-- `clearTimeout`, `delete`, and the entry's promise. -/
def settleRequest (id : String) (p : PendingRequest) (how : Settlement) : Calls :=
  { s with pendingRequests := s.pendingRequests.delete id }.settle p.call how

def rejectPendingRequests (error : String) : Calls :=
  s.pendingRequests.foldl (fun s (id, p) => s.settleRequest id p (.rejected error)) s

/-- `this.queue.clear()`, and the pending requests. -/
def clear (error : String) : Calls :=
  { s with queue := ExecutionQueue.clear s.queue }.rejectPendingRequests error

/-- A callback of the queue. -/
def runQueue (e : ExecutionQueue.Event) : Calls :=
  { s with queue := ExecutionQueue.step cfg.queue s.queue e }

/-- `return this.queue.execute(code, options)` -/
def execute (ws i : Nat) (code : String) (options : ExecutionOptions) : Calls :=
  let s' := s.runQueue cfg (.execute code options)
  if s.queue.queue.length ≥ cfg.queueSize then s'.throw i ExecutionQueue.FULL_MESSAGE
  else s'.setPhase i (.queued ws s.queue.nextTicket)

/-- `request()` after its `await`. -/
def request (ws i : Nat) (msgType : String) (timeout : Option Int) : Calls :=
  let id := cfg.requestId s.requests
  let entry : PendingRequest :=
    { call := i, replyType := replyTypeOf msgType, timeoutMs := timeout.getD DEFAULT_REQUEST_TIMEOUT_MS }
  let s' := { s with
    requests := s.requests + 1
    pendingRequests := s.pendingRequests.set id entry }.setPhase i (.asked ws id)
  match cfg.requestThrows s.requests with
  | some error => s'.settle i (.rejected error)
  | none => s'

/-- How `settleRequest` settles the request that `message` replies to. -/
def replySettlement (p : PendingRequest) (message : JupyterMessage) (ename : Option String) : Settlement :=
  match message.content.status with
  | some .error => .rejected
      ((message.content.evalue <|> ename).getD s!"{p.replyType} reported an error")
  | some .aborted => .rejected s!"{p.replyType} was aborted: an earlier request failed with stopOnError"
  | _ => .replied message.content

/-- The listeners of the `message` event: the session's own, then the queue's. `ename` is the
content's. -/
def message (message : JupyterMessage) (ename : Option String) : Calls :=
  let s := match s.pendingRequests.get message.parentMsgId with
    | some p =>
      if msgTypeName message.msgType = p.replyType then
        s.settleRequest message.parentMsgId p (replySettlement p message ename)
      else s
    | none => s
  s.runQueue cfg (.message message)

/-- A `requestError` frame. -/
def requestError (id error : String) : Calls :=
  match s.pendingRequests.get id with
  | some p => s.settleRequest id p (.rejected error)
  | none => s

/-- The timer of a request. -/
def requestTimeout (id : String) : Calls :=
  match s.pendingRequests.get id with
  | some p => s.settleRequest id p
      (.rejected s!"Timed out waiting for a {p.replyType} after {p.timeoutMs}ms")
  | none => s

/-- What the promise of the call `i` was settled with. -/
def settlements (i : Nat) : List Settlement :=
  (s.log.filter (·.1 = i)).map Prod.snd ++
    match (s.all[i]?).map Call.phase with
    | some (.queued _ ticket) => (s.queue.settlementsOf ticket).map Settlement.ofOutcome
    | _ => []

end Calls

/-! ## The session -/

structure State where
  conn : Connection := {}
  calls : Calls := {}
deriving DecidableEq, Repr

inductive Event where
  | call (kind : Kind)
  /-- The microtask behind the `await` of the call `i`. -/
  | resume (i : Nat)
  | restart
  /-- A restart has its answer, and connects. -/
  | connect (ready : Nat)
  | restartFailed (ready : Nat) (error : String)
  | stop | disconnect | kill
  /-- The socket's `ready` frame, `error` and `close` events. -/
  | ready (ws : Nat)
  | failed (ws : Nat)
  | closed (ws : Nat)
  | message (message : JupyterMessage) (ename : Option String)
  | requestError (id error : String)
  | kernelExit (reason : String)
  | requestTimeout (id : String)
  /-- A timer of the queue, or the end of an interrupt. -/
  | timer (e : ExecutionQueue.Event)
deriving DecidableEq, Repr

def endedMessage (reason : String) : String :=
  s!"The session's kernel has ended ({reason}); restart() starts a new one"

/-- After the `await`: `dead` is looked at by `execute()` only. -/
def resume (s : State) (i : Nat) : State :=
  match s.calls.all[i]? with
  | some { kind, phase := .awaiting p } =>
    match s.conn.promise p, kind, s.conn.dead with
    | .pending, _, _ => s
    | .rejected error, _, _ => { s with calls := s.calls.throw i error }
    | .resolved, .execute _ _, some reason =>
      { s with calls := s.calls.throw i (endedMessage reason) }
    | .resolved, .execute code options, none =>
      { s with calls := s.calls.execute cfg s.conn.ws i code options }
    | .resolved, .request msgType timeout, _ =>
      { s with calls := s.calls.request cfg s.conn.ws i msgType timeout }
  | _ => s

/-- `stop()`, `disconnect()` and `kill()`, up to what they wait for. -/
def stopWith (error : String) (s : State) : State :=
  if s.conn.stopped then s
  else { conn := { s.conn with stopped := true }, calls := s.calls.clear error }

def stop : State → State := stopWith "Session stopped"
def disconnect : State → State := stopWith "Session was disconnected"
def kill : State → State := stopWith "Session was killed"

/-- Up to the call of the supervisor. -/
def restart (s : State) : State :=
  if s.conn.stopped then s
  else
    { conn := { s.conn with
        dead := none
        promises := s.conn.promises ++ [.pending]
        restarting := s.conn.restarting ++ [s.conn.promises.length] }
      calls := s.calls.clear "Session is restarting" }

/-- `connect()` of a restart. -/
def connect (s : State) (p : Nat) : State :=
  if p ∈ s.conn.restarting then
    { s with conn := { s.conn with
        restarting := s.conn.restarting.erase p
        sockets := s.conn.sockets ++ [{ ready := p }] } }
  else s

def restartFailed (s : State) (p : Nat) (error : String) : State :=
  if p ∈ s.conn.restarting then
    { s with conn := { s.conn with restarting := s.conn.restarting.erase p }.settle p (.rejected error) }
  else s

/-- `onReady` and `onOpenError`: the socket's promise is settled. -/
def settleReady (s : State) (ws : Nat) (r : Ready) : State :=
  match s.conn.sockets[ws]? with
  | some { ready, closed := false } => { s with conn := s.conn.settle ready r }
  | _ => s

/-- The kernel has ended, as far as the session knows. -/
def end_ (s : State) (dead error : String) : State :=
  { conn := { s.conn with dead := some dead }, calls := s.calls.clear error }

def notReadyMessage : String := s!"Session {cfg.sessionId} closed before it was ready"
def LOST_MESSAGE : String := "WebSocket connection to the supervisor closed unexpectedly"

/-- The two `close` listeners of a socket. -/
def closed (s : State) (ws : Nat) : State :=
  match s.conn.sockets[ws]? with
  | some { ready, closed := false } =>
    let s' := { s with conn := (s.conn.close ws).settle ready (.rejected (notReadyMessage cfg)) }
    if s.conn.stopped || s.conn.ws ≠ ws then s'
    else end_ s' "the connection to the supervisor was lost" LOST_MESSAGE
  | _ => s

def kernelExit (s : State) (reason : String) : State :=
  if s.conn.stopped then s else end_ s reason s!"Session process exited: {reason}"

def step (s : State) : Event → State
  | .call kind => { s with calls := { s.calls with
      all := s.calls.all ++ [{ kind, phase := .awaiting s.conn.readyPromise }] } }
  | .resume i => resume cfg s i
  | .restart => restart s
  | .connect p => connect s p
  | .restartFailed p error => restartFailed s p error
  | .stop => stop s
  | .disconnect => disconnect s
  | .kill => kill s
  | .ready ws => settleReady s ws .resolved
  | .failed ws => settleReady s ws
      (.rejected s!"WebSocket connection to session {cfg.sessionId} failed")
  | .closed ws => closed cfg s ws
  | .message message ename => { s with calls := s.calls.message cfg message ename }
  | .requestError id error => { s with calls := s.calls.requestError id error }
  | .kernelExit reason => kernelExit s reason
  | .requestTimeout id => { s with calls := s.calls.requestTimeout id }
  | .timer (.timeout t) => { s with calls := s.calls.runQueue cfg (.timeout t) }
  | .timer (.idleWaitExpired h) => { s with calls := s.calls.runQueue cfg (.idleWaitExpired h) }
  | .timer (.interruptCompleted t) => { s with calls := s.calls.runQueue cfg (.interruptCompleted t) }
  | .timer _ => s

def system : System State Event := System.ofFn {} (step cfg)

/-! ## The property -/

/-- What will settle the promise of the call `i`. -/
def Held (s : State) (i : Nat) : Phase → Prop
  -- its `readyPromise` is settled, or a restart under way or an open socket will settle it
  | .awaiting p => s.conn.promise p ≠ .pending ∨ p ∈ s.conn.restarting ∨
      ∃ socket ∈ s.conn.sockets, socket.ready = p ∧ socket.closed = false
  | .queued ws ticket => s.conn.carries ws ∧
      ((∃ x ∈ s.calls.queue.queue, x.ticket = ticket) ∧
          (s.calls.queue.inFlight ≠ [] ∨ s.calls.queue.interrupted ≠ []) ∨
        ∃ e ∈ s.calls.queue.pending, e.2.ticket = ticket)
  | .asked ws id => s.conn.carries ws ∧ ∃ p, s.calls.pendingRequests.get id = some p ∧ p.call = i
  | .thrown => False

/-- **The calls settle**: none twice, and none that something does not still hold; once the session
has ended, what is not settled yet is rejected by its next microtask. -/
structure Sound (s : State) : Prop where
  once : ∀ i, (s.calls.settlements i).length ≤ 1
  held : ∀ i call, s.calls.all[i]? = some call → s.calls.settlements i = [] → Held s i call.phase
  ended : s.conn.ended → ∀ i < s.calls.all.length, s.calls.settlements i = [] →
    ∃ error, (resume cfg s i).calls.settlements i = [.rejected error]

/-- What the queue is called for. -/
def Event.queue? : Event → Option ExecutionQueue.Event
  | .message m _ => some (.message m)
  | .timer e => some e
  | _ => none

/-- By its own reply, or with an error; an execution may also be aborted in the queue. -/
def Own (s : State) (e : Event) (i : Nat) : Settlement → Prop
  | .rejected _ => True
  | .replied content => ∃ message ename msgType timeout ws, e = .message message ename ∧
      message.content = content ∧ msgTypeName message.msgType = replyTypeOf msgType ∧
      s.calls.all[i]? = some ⟨.request msgType timeout, .asked ws message.parentMsgId⟩
  | .executed result => ∃ e' kind ws ticket, e.queue? = some e' ∧
      s.calls.all[i]? = some ⟨kind, .queued ws ticket⟩ ∧
      (result = ExecutionQueue.abortedResult ∨ ExecutionQueue.Answers s.calls.queue e' ticket)

/-- What a step settles. -/
structure SoundStep (s : State) (e : Event) (s' : State) : Prop where
  stays : ∀ i how, how ∈ s.calls.settlements i → how ∈ s'.calls.settlements i
  own : ∀ i how, how ∈ s'.calls.settlements i → how ∈ s.calls.settlements i ∨ Own s e i how
  /-- A session that ends, or has ended, settles with errors only. -/
  rejects : s'.conn.ended → ∀ i how, how ∈ s'.calls.settlements i →
    how ∈ s.calls.settlements i ∨ ∃ error, how = .rejected error

/-! ## The condition -/

/-- Whether a call that awaits the promise `r` throws when it gets on. -/
def refused (dead : Bool) (kind : Kind) : Ready → Bool
  | .pending => false
  | .resolved => dead && kind.isExecute
  | .rejected _ => true

/-- Whether every call that awaits does. -/
def Calls.awaitRefused (s : Calls) (dead : Bool) (c : Connection) : Bool :=
  s.all.all fun call =>
    match call.phase with
    | .awaiting p => refused dead call.kind (c.promise p)
    | _ => true

/-- Whether every call that was sent is settled. -/
def Calls.noneSent (s : Calls) : Bool :=
  (List.range s.all.length).all fun i =>
    match (s.all[i]?).map Call.phase with
    | some (.queued _ _) | some (.asked _ _) => s.settlements i ≠ []
    | _ => true

/-- Whether what has to be rejected is caught by a check the source makes: an ending finds no call
between its `await` and its send, an ended session gets none, no restart comes between a call's
`readyPromise` and the call, and none connects over a call that was sent. -/
def caught (s : State) : Event → Bool
  | .call kind =>
    !s.conn.ended || refused s.conn.dead.isSome kind (s.conn.promise s.conn.readyPromise)
  | .resume i =>
    match s.calls.all[i]? with
    | some { kind, phase := .awaiting p } =>
      s.conn.promise p ≠ .resolved || p = s.conn.readyPromise || s.conn.dead.isSome && kind.isExecute
    | _ => true
  | .stop | .disconnect | .kill =>
    s.conn.stopped || s.calls.awaitRefused s.conn.dead.isSome s.conn
  | .kernelExit _ => s.conn.stopped || s.calls.awaitRefused true s.conn
  | .closed ws =>
    match s.conn.sockets[ws]? with
    | some { ready, closed := false } => s.conn.stopped || s.conn.ws ≠ ws ||
        s.calls.awaitRefused true (s.conn.settle ready (.rejected (notReadyMessage cfg)))
    | _ => true
  | .connect p => p ∉ s.conn.restarting || s.calls.noneSent
  | _ => true

end Jovian.SessionCalls
