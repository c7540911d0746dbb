import Jovian.Lib.Backlog
import Jovian.Lib.Transition

/-!
# Jovian — the kernel's publisher thread (`transport/server/publisher.cpp`)

`Publisher::run` serves three sockets: the PULL socket `m_listener` that the kernel's
threads push their iopub messages to, the REP socket `m_controller` the stop comes from,
and the XPUB socket `m_publisher`, to which it sends and from which it reads what peers
sent (subscriptions, mostly).

`zmq::poll` looks at the three one after the other, and everyone else goes on in between,
so a turn of the loop is several steps: each look, and each of the three `if`s. The inproc
pairs keep every message in order, and XPUB may pass up any message at all.

A frame is its bytes. Of a welcome only the topic is kept, not the generated header.
-/

namespace Jovian.Publisher

abbrev Frame := List UInt8

abbrev Multipart := List Frame

/-- What `createPubMessage` makes of its argument. -/
structure PubMessage where
  msgType : String
  subscription : Frame
deriving DecidableEq, Repr

def createPubMessage (topic : Frame) : PubMessage where
  msgType := "iopub_welcome"
  subscription := topic

/-- What is sent on the XPUB socket. -/
inductive Sent where
  | relayed (wireMsg : Multipart)
  | welcome (message : PubMessage)
deriving DecidableEq, Repr

/-- What ends the thread: a `std::runtime_error`, or the `std::length_error` of a string of
an empty frame's `size() - 1` bytes. -/
inductive Error where
  | runtimeError (what : String)
  | lengthError
deriving DecidableEq, Repr

/-- Where the thread is: looking at the sockets, at one of the three `if`s with what
`zmq::poll` saw, or out of the loop. -/
inductive Pc where
  | poll
  | polledListener (listener : Bool)
  | polledController (listener controller : Bool)
  | listener (listener controller publisher : Bool)
  | controller (controller publisher : Bool)
  | publisher (publisher : Bool)
  | stopped
  | threw (error : Error)
deriving DecidableEq, Repr

structure State where
  /-- What `m_listener` holds. -/
  listener : List Multipart := []
  /-- Whether `m_controller` holds the stop. -/
  controller : Bool := false
  /-- What `m_publisher` has to read. -/
  publisher : List Multipart := []
  pc : Pc := .poll
  /-- What was sent on `m_publisher`. -/
  sent : List Sent := []
  /-- Everything published, and everything peers sent, so far. -/
  published : List Multipart := []
  arrived : List Multipart := []
  /-- The same two as they were when the stop was sent. -/
  beforeStop : Option (List Multipart × List Multipart) := none
deriving DecidableEq, Repr

def NOT_SINGLE_MESSAGE : String := "ERROR: Received message on XPUB is not a single frame"
def NO_CALLBACK_MESSAGE : String := "ERROR: IOPUB serialization callback not set"

/-- Whether `m_serializeIopubMsgCb` is set. `ServerZmqImpl` always passes one. -/
structure Config where
  serializeIopubMsgCb : Bool := true

variable (cfg : Config)

/-- The third `if`: a message read from the XPUB socket. The first byte of an empty frame
is read past its end, where `stray` happens to be. -/
def readEvent (s : State) (event : Multipart) (stray : UInt8) : State :=
  match event with
  | [frame] =>
    match frame with
    | [] => if stray = 1 then { s with pc := .threw .lengthError } else { s with pc := .poll }
    | first :: topic =>
      if first = 1 then
        if cfg.serializeIopubMsgCb then
          { s with sent := s.sent ++ [.welcome (createPubMessage topic)], pc := .poll }
        else { s with pc := .threw (.runtimeError NO_CALLBACK_MESSAGE) }
      else { s with pc := .poll }
  | _ => { s with pc := .threw (.runtimeError NOT_SINGLE_MESSAGE) }

/-- The thread's next step. -/
def turn (s : State) (stray : UInt8) : State :=
  match s.pc with
  | .poll => { s with pc := .polledListener (s.listener ≠ []) }
  | .polledListener r₀ => { s with pc := .polledController r₀ s.controller }
  | .polledController r₀ r₁ =>
    let r₂ : Bool := s.publisher ≠ []
    if r₀ || r₁ || r₂ then { s with pc := .listener r₀ r₁ r₂ } else { s with pc := .poll }
  | .listener r₀ r₁ r₂ =>
    if r₀ then
      match s.listener with
      | wireMsg :: rest =>
        { s with listener := rest, sent := s.sent ++ [.relayed wireMsg], pc := .controller r₁ r₂ }
      | [] => s
    else { s with pc := .controller r₁ r₂ }
  | .controller r₁ r₂ =>
    if r₁ then { s with controller := false, pc := .stopped } else { s with pc := .publisher r₂ }
  | .publisher r₂ =>
    if r₂ then
      match s.publisher with
      | event :: rest => readEvent cfg { s with publisher := rest } event stray
      | [] => s
    else { s with pc := .poll }
  | .stopped | .threw _ => s

/-- What can happen next: a message published, a message of a peer, `stopChannels` sending
its stop (once: it waits for the answer), or a step of the thread. -/
inductive Event where
  | publish (wireMsg : Multipart)
  | peer (event : Multipart)
  | stop
  | turn (stray : UInt8)
deriving DecidableEq, Repr

def step (s : State) : Event → State
  | .publish wireMsg =>
    { s with listener := s.listener ++ [wireMsg], published := s.published ++ [wireMsg] }
  | .peer event =>
    { s with publisher := s.publisher ++ [event], arrived := s.arrived ++ [event] }
  | .stop =>
    if s.beforeStop = none then
      { s with controller := true, beforeStop := some (s.published, s.arrived) }
    else s
  | .turn stray => turn cfg s stray

/-- The state after the events `es`, from a thread that has just started. -/
def run (es : List Event) : State :=
  es.foldl (step cfg) {}

/-- The publisher as a transition system. -/
def system : Transition.System State Event :=
  .ofFn {} (step cfg)

/-! ## What is published and what is answered -/

/-- The topic of a subscription. -/
def topic? : Multipart → Option Frame
  | [first :: topic] => if first = 1 then some topic else none
  | _ => none

namespace Sent

def relayed? : Sent → Option Multipart
  | .relayed wireMsg => some wireMsg
  | .welcome _ => none

def welcome? : Sent → Option Frame
  | .welcome message => some message.subscription
  | .relayed _ => none

end Sent

namespace State

/-- The messages forwarded, in order. -/
def relayed (s : State) : List Multipart := s.sent.filterMap Sent.relayed?

/-- The topics welcomed, in order. -/
def welcomed (s : State) : List Frame := s.sent.filterMap Sent.welcome?

/-- The messages published before the stop was sent that are still to be read. -/
def unread (s : State) : List Multipart :=
  match s.beforeStop with
  | some (published, _) => backlog s.listener published s.published
  | none => []

/-- The subscriptions that arrived before the stop was sent and are still to be read. -/
def unanswered (s : State) : List Frame :=
  match s.beforeStop with
  | some (_, arrived) => (backlog s.publisher arrived s.arrived).filterMap topic?
  | none => []

end State

end Jovian.Publisher
