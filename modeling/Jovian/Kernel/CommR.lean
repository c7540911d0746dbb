import Jovian.Kernel.Comm
import Jovian.Lib.Transition

/-!
# Jovian — R's comms (`elara::comms`)

Elara keeps the comms R works with, under their ids. One that R closes is destroyed at once; one that
the client closes is taken out when its close handler starts, and destroyed by a later call from R
(`reapClosed`), since that handler is the comm's own.

The kernel handles one comm request at a time. While it does, a callback or a handler of R's may run,
and calls what it likes. Other C++ code may have comms too (`loose`), and move, copy and destroy them.
-/

namespace Jovian.Comms

open Transition (System)

/-- The comm request that is being handled. -/
inductive Running where
  | idle
  /-- The target's callback runs; `commOpen`'s own comm has been moved from. -/
  | opening (newComm : Address)
  /-- The comm's close handler runs; `entry` is the comm that has been taken out. -/
  | closing (id : Guid) (entry : Option Address)
deriving DecidableEq

structure State extends Manager where
  openComms : Guid → Option Address := fun _ => none
  closedComms : List Address := []
  running : Running := .idle

inductive Event where
  /-- `CommManager$register_comm_target()`; `node` is where a new target would be. -/
  | registerTarget (name : String) (node : Address)
  | unregisterTarget (name : String)
  /-- `CommManager$new_comm()`, at `a`; `movedFrom` is what `m_movedFrom` happens to be. -/
  | newComm (name : String) (id : Guid) (a : Address) (movedFrom : Bool)
  /-- `CommManager$comms()` -/
  | list
  /-- `comm$open()` or `comm$send()` -/
  | send (id : Guid)
  /-- `comm$close()` -/
  | close (id : Guid)
  /-- A `comm_open`: `newComm` is on the stack, `kept` is what Elara makes of it. -/
  | commOpen (name : String) (id : Guid) (newComm kept : Address) (movedFrom : Bool)
  | commMsg (id : Guid)
  | commClose (id : Guid)
  /-- A `comm_info_request`, or `CommManager$get_comm_info()`. -/
  | commInfo (targetName : String)
  /-- R's callback or handler returns. -/
  | returned
  | construct (name : String) (id : Guid) (a : Address) (movedFrom : Bool)
  | moveConstruct (b a : Address)
  | copyConstruct (b a : Address) (id : Guid)
  | moveAssign (a b : Address)
  | copyAssign (a b : Address) (id : Guid)
  | destroy (a : Address)

namespace State

def manage (s : State) (m : Manager) : State := { s with toManager := m }

def reapClosed (s : State) : State :=
  { s.manage (s.closedComms.foldl Manager.destroy s.toManager) with closedComms := [] }

/-- The comm at `a` gets its handlers; one that was kept under its id is destroyed then. -/
def keep (s : State) (a : Address) : State :=
  match s.heap a with
  | none => s
  | some c =>
    let m := s.put a { c with handlers := some c.id }
    { s.manage (match s.openComms c.id with
        | none => m
        | some old => m.destroy old) with
      openComms := Function.update s.openComms c.id (some a) }

def registerTarget (s : State) (name : String) (node : Address) : State :=
  if s.nodes node ≠ none then s
  else s.reapClosed.manage (s.reapClosed.registerCommTarget name node)

def unregisterTarget (s : State) (name : String) : State :=
  s.reapClosed.manage (s.reapClosed.unregisterCommTarget name)

def newComm (s : State) (name : String) (id : Guid) (a : Address) (movedFrom : Bool) : State :=
  let t := s.reapClosed
  if id ∈ s.used ∨ t.heap a ≠ none then s
  else
    match t.targets name with
    | none => t
    | some target => (t.manage (t.toManager.construct a target id movedFrom false)).keep a

/-- The comm goes with its entry. -/
def close (s : State) (id : Guid) : State :=
  let t := s.reapClosed
  match t.openComms id with
  | none => t
  | some a => { t.manage (t.destroy a) with openComms := Function.update t.openComms id none }

def commOpen (s : State) (name : String) (id : Guid) (newComm kept : Address) (movedFrom : Bool) :
    State :=
  if s.running ≠ .idle ∨ s.heap newComm ≠ none ∨ s.heap kept ≠ none ∨ newComm = kept then s
  else
    match s.targets name with
    | none => s
    | some target =>
      let made := s.toManager.construct newComm target id movedFrom false
      { (s.manage (made.moveConstruct kept newComm)).keep kept with running := .opening newComm }

/-- Elara's close handler, up to R's; the id is the handler's own. -/
def onClose (s : State) (id : Guid) (handler : Guid) : State :=
  match s.openComms handler with
  | none => { s with running := .closing id none }
  | some entry =>
    { s with
      openComms := Function.update s.openComms handler none
      running := .closing id (some entry) }

/-- `handleClose()` of the comm that is found. -/
def commClose (s : State) (id : Guid) : State :=
  if s.running ≠ .idle then s
  else
    match (s.recipient id).bind s.heap with
    | none => s
    | some c =>
      match c.handlers with
      | none => { s with running := .closing id none }
      | some handler => s.onClose id handler

def returned (s : State) : State :=
  match s.running with
  | .idle => s
  | .opening newComm => { s.manage (s.destroy newComm) with running := .idle }
  | .closing id entry =>
    { s.manage (s.forget id) with
      closedComms := s.closedComms ++ entry.toList
      running := .idle }

/-- There is a comm that is loose. -/
def isLoose (s : State) (a : Address) : Bool := (s.heap a).any Comm.loose

/-- `Comm(manager.target(name), id)` -/
def construct (s : State) (name : String) (id : Guid) (a : Address) (movedFrom : Bool) : State :=
  match s.targets name, s.heap a with
  | some target, none => s.manage (s.toManager.construct a target id movedFrom true)
  | _, _ => s

end State

def step (s : State) : Event → State
  | .registerTarget name node => s.registerTarget name node
  | .unregisterTarget name => s.unregisterTarget name
  | .newComm name id a movedFrom => s.newComm name id a movedFrom
  | .list => s.reapClosed
  | .send _ | .commMsg _ | .commInfo _ => s
  | .close id => s.close id
  | .commOpen name id newComm kept movedFrom => s.commOpen name id newComm kept movedFrom
  | .commClose id => s.commClose id
  | .returned => s.returned
  | .construct name id a movedFrom => s.construct name id a movedFrom
  | .moveConstruct b a =>
    if s.isLoose a ∧ s.heap b = none then s.manage (s.moveConstruct b a) else s
  | .copyConstruct b a id =>
    if s.isLoose a ∧ s.heap b = none ∧ id ∉ s.used then s.manage (s.copyConstruct b a id) else s
  | .moveAssign a b => if s.isLoose a ∧ s.isLoose b then s.manage (s.moveAssign a b) else s
  | .copyAssign a b id =>
    if s.isLoose a ∧ s.isLoose b ∧ id ∉ s.used then s.manage (s.copyAssign a b id) else s
  | .destroy a => if s.isLoose a then s.manage (s.destroy a) else s

def system : System State Event := System.ofFn {} step

end Jovian.Comms
