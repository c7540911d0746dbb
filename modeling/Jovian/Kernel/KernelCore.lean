import Jovian.Kernel.ServerZmq
import Jovian.Lib.JsonText
import Jovian.Lib.Throws

/-!
# Jovian — the kernel's handlers (`KernelCore`)

`dispatch` says `busy`, runs the handler of a message and says `idle`; but for `execute_request`,
whose callback says `idle` behind its reply. Handlers throw: a content field of the wrong type, the
interpreter, a reply that cannot be written. `catch` takes what is a `std::exception`; what is
`undefined` it does not take.

The interpreter, the history and the comms' callbacks are given from outside (`World`), and so is
whether a reply can be sent or an input stored. What an interpreter does with the callback it is
given is its `Conduct`: it calls it at most once, at once or later.

What a kernel does is its `trace`. Replies to requests that are aborted are kept apart there from
the replies of the handlers.
-/

namespace Jovian.Kernel

open Server (Channel)
open Throws (attempt catching)

/-! ## What is thrown -/

inductive Exception where
  | json (e : Json.Error)
  /-- `std::runtime_error`, or what an interpreter throws. -/
  | runtime (what : String)
  /-- `std::out_of_range` of `std::string::replace` -/
  | outOfRange
  /-- No exception: a `const json` was asked for a member that it has not. An assertion ends the
  process, or, compiled without, the behaviour is undefined. -/
  | undefined

/-- `e.what()` -/
def Exception.what : Exception → String
  | .json .notAnObject => "[json.exception.type_error.306] cannot use value()"
  | .json (.wrongType _) => "[json.exception.type_error.302] type must be another"
  | .json .invalidUtf8 => "[json.exception.type_error.316] invalid UTF-8 byte"
  | .runtime what => what
  | .outOfRange => "basic_string::replace"
  | .undefined => ""

/-! ## Messages and effects -/

structure Message where
  identities : List (List UInt8)
  header : Json
  content : Json

/-- What an interpreter or a comm publishes. -/
inductive OutputType where
  | stream | displayData | updateDisplayData | executeInput | executeResult | error | clearOutput
  | debugEvent | commOpen | commMsg | commClose
deriving DecidableEq, Repr

def OutputType.name : OutputType → String
  | .stream => "stream"
  | .displayData => "display_data"
  | .updateDisplayData => "update_display_data"
  | .executeInput => "execute_input"
  | .executeResult => "execute_result"
  | .error => "error"
  | .clearOutput => "clear_output"
  | .debugEvent => "debug_event"
  | .commOpen => "comm_open"
  | .commMsg => "comm_msg"
  | .commClose => "comm_close"

structure Output where
  type : OutputType
  content : Json

inductive Effect where
  | publish (msgType : String) (parent content : Json) (channel : Channel)
  | reply (msgType : String) (parent content : Json) (channel : Channel)
  /-- The reply of `abortRequest`. -/
  | aborted (msgType : String) (parent : Json)
  | beginExecution
  | endExecution
  | storeInputs (session : Nat) (executionCount : Json) (code : String)
  | stop

/-- `RequestContext` and `ExecuteRequestConfig`, and what else an `execute_request` says. -/
structure ExecuteRequest where
  header : Json
  identities : List (List UInt8)
  code : String
  silent : Bool
  storeHistory : Bool
  allowStdin : Bool
  userExpressions : Json
  stopOnError : Bool

/-! ## The world -/

/-- A call: what is published during it, and what it returns or throws. -/
structure Call (α : Type) where
  outputs : List Output := []
  result : Except String α

/-- What happens while an interpreter runs a cell: it publishes, and requests come to wait. -/
structure Meanwhile where
  outputs : List Output := []
  /-- What the watcher sets aside. -/
  deferred : List Message := []
  /-- What comes to the shell socket; `none` where it cannot be read. -/
  shell : List (Option Message) := []

/-- What `executeRequestImpl` does with its callback, which it calls at most once. -/
inductive Conduct where
  | never (before : Meanwhile) (thrown : Option String)
  /-- It calls it; what follows depends on what the call threw. -/
  | calls (before : Meanwhile) (reply : Json)
      (rest : Option Exception → Meanwhile × Option String)
  /-- It keeps it, and returns or throws; it calls it later, from its own loop. -/
  | keeps (before : Meanwhile) (thrown : Option String) (later : Meanwhile) (reply : Json)

structure World where
  conduct : ExecuteRequest → Nat → Conduct
  completeRequest : String → Json → Call Json
  inspectRequest : String → Json → Json → Call Json
  isCompleteRequest : String → Call Json
  kernelInfoRequest : Call Json
  shutdownRequest : Bool → Call Json
  interruptRequest : Call Json
  debugRequest : Json → Call Json
  getTail : Json → Bool → Bool → Call Json
  search : String → Bool → Bool → Json → Bool → Call Json
  getRange : Json → Json → Json → Bool → Bool → Call Json
  /-- A comm target's callback, given a comm's id: whether it keeps the comm, and what it does. -/
  target : String → Option (String → Message → Bool × Call Unit)
  handleClose : String → Message → Call Unit
  handleMessage : String → Message → Call Unit
  /-- What sending a reply of this content throws. -/
  sends : Json → Option String
  /-- What storing an input throws. -/
  stores : Json → String → Option String

/-- What is left to do for a callback that was kept. -/
structure Kept where
  request : ExecuteRequest
  executionCount : Nat
  later : Meanwhile
  reply : Json

structure State where
  trace : List Effect := []
  executionCount : Nat := 0
  /-- `m_requestContext.header()` -/
  parentHeader : Json := .object []
  /-- The callback's flag. -/
  executionEnded : Bool := false
  kept : Option Kept := none
  deferredShell : List Message := []
  shell : List (Option Message) := []
  /-- The comms' ids and targets. -/
  comms : List (String × String) := []

abbrev KernelM := EStateM Exception State

def emit (e : Effect) : KernelM Unit :=
  modify fun s => { s with trace := s.trace ++ [e] }

def lift {α : Type} : Except Json.Error α → KernelM α
  | .ok a => pure a
  | .error e => throw (.json e)

/-- `catch (std::exception&)` -/
def catchStd (x : KernelM Unit) (handle : Exception → KernelM Unit) : KernelM Unit :=
  catching x fun
    | .undefined => throw .undefined
    | e => handle e

/-- An `if` without an `else`. -/
def given (c : Bool) (x : KernelM Unit) : KernelM Unit :=
  if c then x else pure ()

def throws : Option String → KernelM Unit
  | none => pure ()
  | some what => throw (.runtime what)

/-! ## Reading JSON -/

/-- A number, or what is converted to one. -/
def number? : Json → Option Json
  | .number s => some (.number s)
  | .bool b => some (.bool b)
  | _ => none

def valueNumber (j : Json) (key : String) (default : Json) : Except Json.Error Json :=
  j.value key default number?

/-- `j[key]` of a `const json`. -/
def index (j : Json) (key : String) : KernelM Json :=
  match j with
  | .object members =>
    match members.lookup key with
    | some v => pure v
    | none => throw .undefined
  | _ => throw (.json .notAnObject)

/-- A conversion to a string. -/
def toText (key : String) (v : Json) : KernelM String :=
  match v.string? with
  | some s => pure s
  | none => throw (.json (.wrongType key))

/-- `std::string s = j[key]` of a `json` that can be changed: a missing member is `null`. -/
def indexText (j : Json) (key : String) : KernelM String :=
  match j with
  | .object members => toText key ((members.lookup key).getD .null)
  | .null => throw (.json (.wrongType key))
  | _ => throw (.json .notAnObject)

/-- `j[key] = v` -/
def assign (j : Json) (key : String) (v : Json) : Except Json.Error Json :=
  match j with
  | .object members => .ok (.object (Json.setMember key v members))
  | .null => .ok (.object [(key, v)])
  | _ => .error .notAnObject

/-! ## Publishing and replying -/

def publishMessage (msgType : String) (parent content : Json) (c : Channel) : KernelM Unit :=
  emit (.publish msgType parent content c)

def executionState (status : String) : Json :=
  .object [("execution_state", .string status)]

def publishStatus (parent : Json) (status : String) (c : Channel) : KernelM Unit :=
  publishMessage "status" parent (executionState status) c

def publishOutput (o : Output) : KernelM Unit := do
  let s ← get
  publishMessage o.type.name s.parentHeader o.content .shell

def publishOutputs : List Output → KernelM Unit
  | [] => pure ()
  | o :: outputs => do
    publishOutput o
    publishOutputs outputs

def call {α : Type} (c : Call α) : KernelM α := do
  publishOutputs c.outputs
  match c.result with
  | .ok a => pure a
  | .error what => throw (.runtime what)

def sendReply (w : World) (replyType : String) (parent content : Json) (c : Channel) :
    KernelM Unit := do
  throws (w.sends content)
  emit (.reply replyType parent content c)

/-- The reply to `request`, of the same identities and on its channel. -/
def answer (w : World) (replyType : String) (request : Message) (content : Json) (c : Channel) :
    KernelM Unit :=
  sendReply w replyType request.header content c

/-! ## Aborting -/

/-- `msg_type.replace(msg_type.find_last_of('_'), 8, "_reply")` -/
def replyType (msgType : String) : Option String :=
  let cs := msgType.toList
  if '_' ∈ cs then
    -- what is in front of the last underscore
    let front := ((cs.reverse.dropWhile (· ≠ '_')).drop 1).reverse
    some (String.ofList (front ++ "_reply".toList ++ cs.drop (front.length + 8)))
  else none

def abortedContent : Json :=
  .object [("status", .string "aborted")]

/-- What aborting a request throws. -/
def abortError (w : World) (msg : Message) : Option Exception :=
  match msg.header.valueString "msg_type" "" with
  | .error e => some (.json e)
  | .ok msgType =>
    match replyType msgType with
    | none => some .outOfRange
    | some _ => (w.sends abortedContent).map .runtime

def abortRequest (w : World) (msg : Message) : KernelM Unit := do
  let msgType ← lift (msg.header.valueString "msg_type" "")
  match replyType msgType with
  | none => throw .outOfRange
  | some msgType =>
    throws (w.sends abortedContent)
    emit (.aborted msgType msg.header)

/-- `abortQueue` on what was set aside: nothing catches. -/
def abortDeferred (w : World) : List Message → KernelM Unit
  | [] => pure ()
  | m :: rest => do
    modify fun s => { s with deferredShell := rest }
    abortRequest w m
    abortDeferred w rest

/-- `abortQueue` on the shell socket: what throws is passed by. -/
def abortShell (w : World) : List (Option Message) → KernelM Unit
  | [] => pure ()
  | m :: rest => do
    modify fun s => { s with shell := rest }
    match m with
    | none => pure ()
    | some m => catchStd (abortRequest w m) fun _ => pure ()
    abortShell w rest

def abortQueue (w : World) : KernelM Unit := do
  let s ← get
  abortDeferred w s.deferredShell
  abortShell w s.shell

/-! ## `execute_request` -/

def createErrorReply (ename evalue : String) : Json :=
  .object [("ename", .string ename), ("evalue", .string evalue), ("status", .string "error"),
    ("traceback", .array [])]

/-- Ends the execution, the first time that it is called. -/
def endExecutionOnce : KernelM Unit := do
  let s ← get
  given (!s.executionEnded) do
    modify fun s => { s with executionEnded := true }
    emit .endExecution

def storeInputs (w : World) (executionCount : Json) (code : String) : KernelM Unit := do
  throws (w.stores executionCount code)
  emit (.storeInputs 0 executionCount code)

/-- `reply_callback` -/
def replyCallback (w : World) (request : ExecuteRequest) (reply : Json) : KernelM Unit := do
  endExecutionOnce
  let executionCount ← lift (valueNumber reply "execution_count" (.number "1"))
  let status ← lift (reply.valueString "status" "error")
  given (!request.silent && status = "error" && request.stopOnError) (abortQueue w)
  sendReply w "execute_reply" request.header reply .shell
  given (!request.silent && request.storeHistory) (storeInputs w executionCount request.code)
  publishStatus request.header "idle" .shell

/-- `callback_impl`, what the interpreter is given. -/
def callbackImpl (w : World) (request : ExecuteRequest) (executionCount : Nat) (reply : Json) :
    KernelM Unit := do
  let reply ← lift (assign reply "execution_count" (.number (toString executionCount)))
  replyCallback w request reply

def elapse (m : Meanwhile) : KernelM Unit := do
  publishOutputs m.outputs
  modify fun s => { s with
    deferredShell := s.deferredShell ++ m.deferred
    shell := s.shell ++ m.shell }

def executeRequestImpl (w : World) (request : ExecuteRequest) (executionCount : Nat) :
    KernelM Unit :=
  match w.conduct request executionCount with
  | .never before what => do
    elapse before
    throws what
  | .calls before reply rest => do
    elapse before
    let outcome ← attempt (callbackImpl w request executionCount reply)
    elapse (rest outcome).1
    throws (rest outcome).2
  | .keeps before what later reply => do
    elapse before
    modify fun s => { s with kept := some ⟨request, executionCount, later, reply⟩ }
    throws what

def publishExecutionInput (code : String) (executionCount : Nat) : KernelM Unit :=
  publishOutput ⟨.executeInput, .object [("code", .string code),
    ("execution_count", .number (toString executionCount))]⟩

/-- `Interpreter::executeRequest` -/
def interpret (w : World) (request : ExecuteRequest) : KernelM Unit := do
  modify fun s => { s with parentHeader := request.header }
  given (!request.silent) do
    modify fun s => { s with executionCount := s.executionCount + 1 }
    publishExecutionInput request.code (← get).executionCount
  executeRequestImpl w request (← get).executionCount

/-- `executeRequest`, once it has read its content. -/
def execute (w : World) (request : ExecuteRequest) : KernelM Unit := do
  emit .beginExecution
  modify fun s => { s with executionEnded := false, kept := none }
  catchStd (interpret w request) fun e =>
    replyCallback w request (createErrorReply "InternalError" e.what)

def readExecuteRequest (msg : Message) : Except Json.Error ExecuteRequest := do
  let code ← msg.content.valueString "code" ""
  let silent ← msg.content.valueBool "silent" false
  let storeHistory ← msg.content.valueBool "store_history" true
  let userExpressions ← msg.content.valueJson "user_expressions" (.object [])
  let allowStdin ← msg.content.valueBool "allow_stdin" true
  let stopOnError ← msg.content.valueBool "stop_on_error" false
  return {
    header := msg.header
    identities := msg.identities
    storeHistory := storeHistory && !silent
    code, silent, userExpressions, allowStdin, stopOnError }

def executeRequest (w : World) (msg : Message) (_c : Channel) : KernelM Unit := do
  let request ← lift (readExecuteRequest msg)
  execute w request

/-- The interpreter calls the callback that it kept; nothing catches there. -/
def resume (w : World) : KernelM Unit := do
  let s ← get
  match s.kept with
  | none => pure ()
  | some k =>
    modify fun s => { s with kept := none }
    elapse k.later
    callbackImpl w k.request k.executionCount k.reply

end Jovian.Kernel
