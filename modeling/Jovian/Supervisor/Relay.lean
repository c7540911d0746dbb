import Jovian.Lib.Backlog
import Jovian.Lib.Transition

/-!
# Jovian — the supervisor's relay of one kernel (`SessionRegistry::pollLoop`)

Two threads of the supervisor read a kernel's messages. `ClientIopub::run` reads the SUB
socket, one message at a time, and pushes each onto `m_messageQueue`; between the two the
message is in its hand. `pollLoop` pops that queue and reads the shell, control and stdin
sockets itself, and hands every message on as a frame (`emitMessage`, `emitKernelExit`).
It looks whether the process is gone *before* it drains, and leaves after that drain.

Messages may reach a socket at any time, also after the process is gone. A message is what
`frameFor` reads of it, its content as text; a kernel's messages deserialise. `stopSession`
enters as what it writes: `expectingExit` and `polling`.
-/

namespace Jovian.Relay

inductive Channel where
  | iopub | shell | control | stdin
deriving DecidableEq, Repr

/-- The channel's name in a frame. -/
def Channel.name : Channel → String
  | .iopub => "iopub"
  | .shell => "shell"
  | .control => "control"
  | .stdin => "stdin"

/-- One value for each channel. -/
structure PerChannel (α : Type) where
  iopub : α
  shell : α
  control : α
  stdin : α
deriving DecidableEq, Repr

namespace PerChannel

variable {α : Type}

def get (p : PerChannel α) : Channel → α
  | .iopub => p.iopub
  | .shell => p.shell
  | .control => p.control
  | .stdin => p.stdin

def set (p : PerChannel α) : Channel → α → PerChannel α
  | .iopub, a => { p with iopub := a }
  | .shell, a => { p with shell := a }
  | .control, a => { p with control := a }
  | .stdin, a => { p with stdin := a }

@[simp] theorem get_set_self (p : PerChannel α) (ch : Channel) (a : α) : (p.set ch a).get ch = a := by
  cases ch <;> rfl

theorem get_set_ne (p : PerChannel α) {ch ch' : Channel} (h : ch' ≠ ch) (a : α) :
    (p.set ch a).get ch' = p.get ch' := by
  cases ch <;> cases ch' <;> first | rfl | exact absurd rfl h

end PerChannel

structure Message where
  topic : String
  msgType : String
  parentMsgId : String := ""
  content : String := ""
deriving DecidableEq, Repr

/-- The frame a client gets for a message: its `type` is `"message"`. -/
structure Envelope where
  channel : String
  topic : String
  msgType : String
  parentMsgId : String
  content : String
deriving DecidableEq, Repr

inductive Frame where
  | message (envelope : Envelope)
  | kernelExit (reason : String)
deriving DecidableEq, Repr

def frameFor (channel topic : String) (msg : Message) : Envelope where
  channel := channel
  topic := topic
  msgType := msg.msgType
  parentMsgId := msg.parentMsgId
  content := msg.content

/-- `drainIopub` frames a message under its topic, `relay` under its type. -/
def relayed (ch : Channel) (msg : Message) : Envelope :=
  frameFor ch.name (if ch = .iopub then msg.topic else msg.msgType) msg

/-- Where the poll thread is; `exited` is what it found of the process this time round. -/
inductive Pc where
  | checkPolling
  | sampleExit
  | drainIopub (exited : Bool)
  | drainShell (exited : Bool)
  | drainControl (exited : Bool)
  | drainStdin (exited : Bool)
  | checkExit (exited : Bool)
  | report
  | waitForActivity
  | left
deriving DecidableEq, Repr

structure State where
  /-- What each socket holds. -/
  sockets : PerChannel (List Message) := ⟨[], [], [], []⟩
  /-- The message the iopub thread has read and not pushed yet. -/
  hand : Option Message := none
  messageQueue : List Message := []
  alive : Bool := true
  polling : Bool := true
  expectingExit : Bool := false
  answeredShutdown : Bool := false
  crashed : Bool := false
  pc : Pc := .checkPolling
  emitted : List Frame := []
  /-- What has reached each socket so far, and what had when the process was found gone. -/
  reached : PerChannel (List Message) := ⟨[], [], [], []⟩
  reachedAtExit : Option (PerChannel (List Message)) := none
deriving DecidableEq, Repr

/-- `emitMessage` of a frame for `msg`. -/
def emit (s : State) (ch : Channel) (msg : Message) : State :=
  { s with emitted := s.emitted ++ [.message (relayed ch msg)] }

/-- One message of `drainReplyChannels`, or on to `next` when the socket is empty. -/
def drainSocket (s : State) (ch : Channel) (next : Pc) : State :=
  match s.sockets.get ch with
  | msg :: rest =>
    let s := { s with
      sockets := s.sockets.set ch rest
      answeredShutdown := s.answeredShutdown || msg.msgType = "shutdown_reply" }
    emit s ch msg
  | [] => { s with pc := next }

variable (describeStatus : String)

/-- The poll thread's next step. -/
def poll (s : State) : State :=
  match s.pc with
  | .checkPolling => if s.polling then { s with pc := .sampleExit } else { s with pc := .left }
  | .sampleExit =>
    if s.alive then { s with pc := .drainIopub false }
    else { s with pc := .drainIopub true, reachedAtExit := some s.reached }
  | .drainIopub exited =>
    match s.messageQueue with
    | msg :: rest => emit { s with messageQueue := rest } .iopub msg
    | [] => { s with pc := .drainShell exited }
  | .drainShell exited => drainSocket s .shell (.drainControl exited)
  | .drainControl exited => drainSocket s .control (.drainStdin exited)
  | .drainStdin exited => drainSocket s .stdin (.checkExit exited)
  | .checkExit exited =>
    if exited then
      if s.expectingExit then { s with polling := false, pc := .left }
      else { s with crashed := true, pc := .report }
    else { s with pc := .waitForActivity }
  | .report =>
    { s with
      emitted := s.emitted ++ [.kernelExit s!"kernel process exited unexpectedly ({describeStatus})"]
      polling := false
      pc := .left }
  | .waitForActivity => { s with pc := .checkPolling }
  | .left => s

/-- What can happen next: a message reaches a socket, the process ends, `stopSession`
expects it to or stops the polling, the iopub thread reads or pushes, or the poll thread
takes a step. -/
inductive Event where
  | reach (ch : Channel) (msg : Message)
  | exit
  | expectExit
  | stopPolling
  | receive
  | push
  | poll
deriving DecidableEq, Repr

def step (s : State) : Event → State
  | .reach ch msg =>
    { s with
      sockets := s.sockets.set ch (s.sockets.get ch ++ [msg])
      reached := s.reached.set ch (s.reached.get ch ++ [msg]) }
  | .exit => { s with alive := false }
  | .expectExit => { s with expectingExit := true, answeredShutdown := false }
  | .stopPolling => { s with polling := false }
  | .receive =>
    match s.hand, s.sockets.iopub with
    | none, msg :: rest => { s with hand := some msg, sockets := s.sockets.set .iopub rest }
    | _, _ => s
  | .push =>
    match s.hand with
    | some msg => { s with hand := none, messageQueue := s.messageQueue ++ [msg] }
    | none => s
  | .poll => poll describeStatus s

/-- The state after the events `es`, from a poll thread that has just started. -/
def run (es : List Event) : State :=
  es.foldl (step describeStatus) {}

/-- The relay as a transition system. -/
def system : Transition.System State Event :=
  .ofFn {} (step describeStatus)

/-! ## What was relayed -/

namespace Frame

def on? (ch : Channel) : Frame → Option Envelope
  | .message envelope => if envelope.channel = ch.name then some envelope else none
  | .kernelExit _ => none

def isMessage : Frame → Bool
  | .message _ => true
  | .kernelExit _ => false

end Frame

namespace State

/-- The frames of the channel's messages, in order. -/
def relayedOn (s : State) (ch : Channel) : List Envelope := s.emitted.filterMap (Frame.on? ch)

/-- The channel's messages not relayed yet, in order: for iopub the queue, then the hand,
then the socket. -/
def waiting (s : State) : Channel → List Message
  | .iopub => s.messageQueue ++ s.hand.toList ++ s.sockets.iopub
  | ch => s.sockets.get ch

/-- The iopub messages that had reached the socket when the process was found gone, and
that the iopub thread has not pushed yet. -/
def unpushed (s : State) : List Message :=
  match s.reachedAtExit with
  | some reached => backlog (s.hand.toList ++ s.sockets.iopub) reached.iopub s.reached.iopub
  | none => []

end State

end Jovian.Relay
