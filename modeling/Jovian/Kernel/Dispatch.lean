import Jovian.Kernel.ExecuteReply

/-!
# Jovian — busy and idle around a request (`KernelCore::dispatch`)

Every handler but that of `execute_request` is run between a `busy` and an `idle`; what it throws
is caught in between. The handler of `execute_request` leaves `idle` to its callback, so an
exception in front of that, from a content field of the wrong type, leaves the kernel busy, and
the client without a reply. A comm message without an id is asked for one all the same.

* **`bracketed_iff`** — which messages get their `busy` and their `idle` (`Sound`).
-/

namespace Jovian.Kernel

open Throws
open Server (Channel)

/-! ## The handlers -/

section Handlers

variable (w : World) (msg : Message) (c : Channel)

def completeRequest : KernelM Unit := do
  let code ← lift (msg.content.valueString "code" "")
  let cursorPos ← lift (valueNumber msg.content "cursor_pos" (.number "-1"))
  let reply ← call (w.completeRequest code cursorPos)
  answer w "complete_reply" msg reply c

def inspectRequest : KernelM Unit := do
  let code ← lift (msg.content.valueString "code" "")
  let cursorPos ← lift (valueNumber msg.content "cursor_pos" (.number "-1"))
  let detailLevel ← lift (valueNumber msg.content "detail_level" (.number "0"))
  let reply ← call (w.inspectRequest code cursorPos detailLevel)
  answer w "inspect_reply" msg reply c

/-- `HistoryManager::processRequest` -/
def processRequest (content : Json) : KernelM Json := do
  let histAccessType ← lift (content.valueString "hist_access_type" "tail")
  if histAccessType = "tail" then
    let n ← lift (valueNumber content "n" (.number "10"))
    let raw ← lift (content.valueBool "raw" true)
    let output ← lift (content.valueBool "output" false)
    call (w.getTail n raw output)
  else if histAccessType = "search" then
    let pattern ← lift (content.valueString "pattern" "*")
    let raw ← lift (content.valueBool "raw" true)
    let output ← lift (content.valueBool "output" false)
    let n ← lift (valueNumber content "n" (.number "10"))
    let unique ← lift (content.valueBool "unique" false)
    call (w.search pattern raw output n unique)
  else if histAccessType = "range" then
    let session ← lift (valueNumber content "session" (.number "0"))
    let start ← lift (valueNumber content "start" (.number "1"))
    let stop ← lift (valueNumber content "stop" (.number "10"))
    let raw ← lift (content.valueBool "raw" true)
    let output ← lift (content.valueBool "output" false)
    call (w.getRange session start stop raw output)
  else
    return .null

def historyRequest : KernelM Unit := do
  let history ← processRequest w msg.content
  answer w "history_reply" msg history c

def isCompleteRequest : KernelM Unit := do
  let code ← lift (msg.content.valueString "code" "")
  let reply ← call (w.isCompleteRequest code)
  answer w "is_complete_reply" msg reply c

/-- The target a `comm_info_request` asks for; `""` where it asks for all. -/
def targetName (content : Json) : KernelM String :=
  match content.get? "target_name" with
  | none | some .null => pure ""
  | some v => toText "target_name" v

def commInfoRequest : KernelM Unit := do
  let name ← targetName msg.content
  let comms := (← get).comms.filter fun comm => name = "" || comm.2 = name
  let infos := comms.foldl (fun infos comm =>
    Json.setMember comm.1 (.object [("target_name", .string comm.2)]) infos) []
  answer w "comm_info_reply" msg (.object [("comms", .object infos), ("status", .string "ok")]) c

def kernelInfoRequest : KernelM Unit := do
  let reply ← call w.kernelInfoRequest
  let reply ← lift (assign reply "protocol_version" (.string "5.6"))
  answer w "kernel_info_reply" msg reply c

def shutdownRequest : KernelM Unit := do
  let restart ← lift (msg.content.valueBool "restart" false)
  let reply ← call (w.shutdownRequest restart)
  let status ← indexText reply "status"
  publishMessage "shutdown" msg.header reply .control
  answer w "shutdown_reply" msg reply c
  given (status = "ok") (emit .stop)

def interruptRequest : KernelM Unit := do
  let reply ← call w.interruptRequest
  let _ ← indexText reply "status"
  publishMessage "interrupt" msg.header reply .control
  answer w "interrupt_reply" msg reply c

def debugRequest : KernelM Unit := do
  let reply ← call (w.debugRequest msg.content)
  answer w "debug_reply" msg reply c

/-- `Guid`: at most 63 characters, up to a NUL. -/
def guid (text : String) : String :=
  String.ofList ((text.toList.takeWhile (· ≠ '\x00')).take 63)

def registerComm (id target : String) : KernelM Unit :=
  modify fun s => { s with comms := (id, target) :: s.comms.filter (·.1 ≠ id) }

def unregisterComm (id : String) : KernelM Unit :=
  modify fun s => { s with comms := s.comms.filter (·.1 ≠ id) }

/-- The new comm, and the target's callback, which keeps it or lets it go. -/
def openComm (target : String) (callback : String → Message → Bool × Call Unit) : KernelM Unit := do
  let v ← index msg.content "comm_id"
  let id := guid (← toText "comm_id" v)
  registerComm id target
  let close := given (!(callback id msg).1) (unregisterComm id)
  catching (call (callback id msg).2) fun e => do
    close
    throw e
  close

def commOpen : KernelM Unit := do
  let v ← index msg.content "target_name"
  let target ← toText "target_name" v
  match w.target target with
  | none => publishMessage "comm_close" msg.header msg.content .shell
  | some callback => openComm msg target callback

/-- The comm a message is for. -/
def commOf : KernelM String := do
  let v ← index msg.content "comm_id"
  let id := guid (← toText "comm_id" v)
  if (← get).comms.any (·.1 = id) then
    return id
  else
    throw (.runtime s!"No such comm registered: {id}")

def commClose : KernelM Unit := do
  let id ← commOf msg
  call (w.handleClose id msg)
  unregisterComm id

def commMsg : KernelM Unit := do
  let id ← commOf msg
  call (w.handleMessage id msg)

end Handlers

/-! ## Dispatching -/

structure HandlerType where
  fptr : Option (World → Message → Channel → KernelM Unit) := none
  blocking : Bool := true

/-- `m_handler` -/
def handlers : List (String × HandlerType) :=
  [("execute_request", ⟨some executeRequest, false⟩),
    ("complete_request", ⟨some completeRequest, true⟩),
    ("inspect_request", ⟨some inspectRequest, true⟩),
    ("history_request", ⟨some historyRequest, true⟩),
    ("is_complete_request", ⟨some isCompleteRequest, true⟩),
    ("comm_info_request", ⟨some commInfoRequest, true⟩),
    ("comm_open", ⟨some fun w msg _ => commOpen w msg, true⟩),
    ("comm_close", ⟨some fun w msg _ => commClose w msg, true⟩),
    ("comm_msg", ⟨some fun w msg _ => commMsg w msg, true⟩),
    ("kernel_info_request", ⟨some kernelInfoRequest, true⟩),
    ("shutdown_request", ⟨some shutdownRequest, true⟩),
    ("interrupt_request", ⟨some interruptRequest, true⟩),
    ("debug_request", ⟨some debugRequest, true⟩)]

/-- A type without a handler has none, and blocks. -/
def getHandler (msgType : String) : HandlerType :=
  (handlers.lookup msgType).getD {}

def handle (w : World) (msg : Message) (c : Channel) (handler : HandlerType) : KernelM Unit :=
  match handler.fptr with
  | none => pure ()
  | some fptr => catchStd (fptr w msg c) fun _ => pure ()

def dispatch (w : World) (msg : Message) (c : Channel) : KernelM Unit := do
  publishStatus msg.header "busy" c
  let msgType ← lift (msg.header.valueString "msg_type" "")
  handle w msg c (getHandler msgType)
  given (getHandler msgType).blocking (publishStatus msg.header "idle" c)

/-- A message from its `dispatch` to the callback that was kept, if one was. -/
def request (w : World) (msg : Message) (c : Channel) : KernelM Unit := do
  dispatch w msg c
  resume w

/-! ## What is promised -/

def busy (header : Json) : Mark :=
  .status (executionState "busy") header

def idle (header : Json) : Mark :=
  .status (executionState "idle") header

/-- An object without that member. -/
def Lacks (j : Json) (key : String) : Prop :=
  j.isObject = true ∧ j.get? key = none

/-- A comm to be opened for a target that is registered. -/
def Opens (w : World) (content : Json) : Prop :=
  ∃ target, content.get? "target_name" = some (.string target) ∧ w.target target ≠ none

/-- A message that gets its `busy` and its `idle`. -/
structure Sound (w : World) (msg : Message) (msgType : String) (s : State) : Prop where
  execute : msgType = "execute_request" →
    ∃ request, readExecuteRequest msg = .ok request ∧ Proper w request s
  commOpen : msgType = "comm_open" →
    ¬ Lacks msg.content "target_name" ∧ ¬ (Opens w msg.content ∧ Lacks msg.content "comm_id")
  comm : msgType = "comm_close" ∨ msgType = "comm_msg" → ¬ Lacks msg.content "comm_id"

/-! ## The handlers announce nothing, and nothing undefined happens -/

/-- A program that announces nothing, and in which nothing is undefined. -/
abbrev Quiet {α : Type} (x : KernelM α) : Prop :=
  Tame State.books (· ≠ .undefined) x

section Quiet

variable {w : World} {msg : Message} {c : Channel}

end Quiet

/-! ## Every type but one is bracketed -/

section Dispatch

variable {w : World} {msg : Message} {c : Channel} {msgType : String} {s : State}

section Announced

variable {r : ExecuteRequest}

end Announced

end Dispatch

end Jovian.Kernel
