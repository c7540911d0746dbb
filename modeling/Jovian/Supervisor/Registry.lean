import Jovian.Lib.Transition
import Mathlib.Logic.Function.Basic

/-!
# Jovian — the session registry (`themisto/session_registry.cpp`)

Each HTTP request runs its operation (create, stop, restart) on a thread of its own; each
session has a poll thread and a heartbeat thread, and a kernel process that may die at any
moment. A step of the model is one access to what they share: the registry `m_sessions`,
the per-id operation lock, and the session's atomics, process and threads. What a session
relays is in `Jovian.Relay`; here the poll thread's drain is one step.

* `createSession` makes a new id, so two creations never have the same (`Requests.fresh`).
  Only `restartSession`, which holds the id's lock, creates a session under an old id.
* Launching can fail where the source can throw or return early: the executable is not
  there (`validate`), the process does not start (`spawn`), the kernel does not register,
  or its channels do not start. The session object is then destroyed, which kills its
  process.
* `listen` is `registerKernelStatusListener`: before it, the heartbeat thread calls no
  listener (the call throws, and is caught).
* The heartbeat thread answers `stopChannels` when it is at its `waitForAnswer`. If that was
  its last missed round, it still calls the listener after it has answered; and while the
  listener runs, `stopChannels` goes on after 5 s without an answer.

A session is named by its launch: `sessions i` is the `i`-th one made.
-/

namespace Jovian.Registry

inductive Kind where
  | create | stop | restart
deriving DecidableEq, Repr

/-- What each operation thread was asked to do; a creation's id is its own. -/
structure Requests (ι : Type) where
  kind : Nat → Kind
  id : Nat → ι
  fresh : ∀ o o', kind o = .create → kind o' = .create → id o = id o' → o = o'

inductive SessionStatus where
  | starting | ready | stopped | crashed
deriving DecidableEq, Repr

/-- Where a session's poll thread is (`SessionRegistry::pollLoop`). -/
inductive PollPc where
  | notStarted
  | checkPolling
  | sampleExit
  | drain (exited : Bool)
  | checkExpecting
  | storeCrashed
  | emitExit
  | stopPolling
  | ended
deriving DecidableEq, Repr

/-- Where a session's heartbeat thread is (`ClientHeartbeat::run` and the listener). -/
inductive HeartbeatPc where
  | silent
  | listening
  | called
  | passed
  | report
  | reported
  | ended
deriving DecidableEq, Repr

structure Session (ι : Type) where
  id : ι
  alive : Bool := true
  status : SessionStatus := .starting
  polling : Bool := false
  expectingExit : Bool := false
  answeredShutdown : Bool := false
  pollThread : PollPc := .notStarted
  heartbeat : HeartbeatPc := .silent
deriving DecidableEq, Repr

/-- `stopSession`, once it has its session. `i` counts the rounds of its grace window. -/
inductive StopStage where
  | sampleAlive
  | expectExit
  | grace (i : Nat)
  | stopPolling
  | join
  | stopChannels
  | kill
  | setStopped
  | erase
deriving DecidableEq, Repr

/-- `createSessionWithId`, once it has started its process. -/
inductive CreateStage where
  | awaitRegistration
  | startClient
  | listen
  | setReady
  | insert
  | setPolling
  | startPoll
deriving DecidableEq, Repr

inductive Result where
  | failed
  | stopped (session : Nat)
  | created (session : Nat)
deriving DecidableEq, Repr

/-- Where an operation's thread is. -/
inductive OpPc where
  | idle
  | lock
  | getSession
  | stopGetSession
  | stopping (stage : StopStage) (session : Nat)
  | restartErase (stopped : Option Nat)
  | validate
  | spawn
  | creating (stage : CreateStage) (session : Nat)
  | unlock (result : Result)
  | returned (result : Result)
deriving DecidableEq, Repr

/-- What a launch is told, and when. -/
inductive Note where
  | expecting (session : Nat)
  | kernelExit (session : Nat)
deriving DecidableEq, Repr

structure State (ι : Type) where
  sessions : Nat → Option (Session ι) := fun _ => none
  launches : Nat := 0
  ops : Nat → OpPc := fun _ => .idle
  /-- `m_sessions` -/
  registry : ι → Option Nat := fun _ => none
  /-- Which operation holds the id's lock. It is recursive: one that does may lock again. -/
  locks : ι → Option Nat := fun _ => none
  log : List Note := []

variable {ι : Type} [DecidableEq ι]

namespace State

def goto (s : State ι) (o : Nat) (pc : OpPc) : State ι :=
  { s with ops := Function.update s.ops o pc }

def modify (s : State ι) (i : Nat) (f : Session ι → Session ι) : State ι :=
  { s with sessions := Function.update s.sessions i ((s.sessions i).map f) }

def register (s : State ι) (id : ι) (session : Option Nat) : State ι :=
  { s with registry := Function.update s.registry id session }

def setLock (s : State ι) (id : ι) (owner : Option Nat) : State ι :=
  { s with locks := Function.update s.locks id owner }

def note (s : State ι) (n : Note) : State ι :=
  { s with log := s.log ++ [n] }

section Projections

variable (s : State ι) (o p i j : Nat) (pc : OpPc) (f : Session ι → Session ι) (id id' : ι)
  (v : Option Nat) (n : Note)

omit [DecidableEq ι]

@[simp] theorem goto_ops : (s.goto o pc).ops p = if p = o then pc else s.ops p :=
  Function.update_apply ..
@[simp] theorem goto_sessions : (s.goto o pc).sessions = s.sessions := rfl
@[simp] theorem goto_launches : (s.goto o pc).launches = s.launches := rfl
@[simp] theorem goto_registry : (s.goto o pc).registry = s.registry := rfl
@[simp] theorem goto_locks : (s.goto o pc).locks = s.locks := rfl
@[simp] theorem goto_log : (s.goto o pc).log = s.log := rfl
@[simp] theorem modify_sessions :
    (s.modify i f).sessions j = if j = i then (s.sessions i).map f else s.sessions j :=
  Function.update_apply ..
@[simp] theorem modify_launches : (s.modify i f).launches = s.launches := rfl
@[simp] theorem modify_ops : (s.modify i f).ops = s.ops := rfl
@[simp] theorem modify_registry : (s.modify i f).registry = s.registry := rfl
@[simp] theorem modify_locks : (s.modify i f).locks = s.locks := rfl
@[simp] theorem modify_log : (s.modify i f).log = s.log := rfl
@[simp] theorem note_sessions : (s.note n).sessions = s.sessions := rfl
@[simp] theorem note_launches : (s.note n).launches = s.launches := rfl
@[simp] theorem note_ops : (s.note n).ops = s.ops := rfl
@[simp] theorem note_registry : (s.note n).registry = s.registry := rfl
@[simp] theorem note_locks : (s.note n).locks = s.locks := rfl
@[simp] theorem note_log : (s.note n).log = s.log ++ [n] := rfl

variable [DecidableEq ι]

@[simp] theorem register_sessions : (s.register id v).sessions = s.sessions := rfl
@[simp] theorem register_launches : (s.register id v).launches = s.launches := rfl
@[simp] theorem register_ops : (s.register id v).ops = s.ops := rfl
@[simp] theorem register_registry :
    (s.register id v).registry id' = if id' = id then v else s.registry id' :=
  Function.update_apply ..
@[simp] theorem register_locks : (s.register id v).locks = s.locks := rfl
@[simp] theorem register_log : (s.register id v).log = s.log := rfl
@[simp] theorem setLock_sessions : (s.setLock id v).sessions = s.sessions := rfl
@[simp] theorem setLock_launches : (s.setLock id v).launches = s.launches := rfl
@[simp] theorem setLock_ops : (s.setLock id v).ops = s.ops := rfl
@[simp] theorem setLock_registry : (s.setLock id v).registry = s.registry := rfl
@[simp] theorem setLock_locks :
    (s.setLock id v).locks id' = if id' = id then v else s.locks id' :=
  Function.update_apply ..
@[simp] theorem setLock_log : (s.setLock id v).log = s.log := rfl

end Projections

end State

variable (req : Requests ι)

/-- Where an operation goes when it is over: the lock is released by `restartSession`, not
by `createSession`, which never had it. -/
def finish (o : Nat) (result : Result) : OpPc :=
  if req.kind o = .create then .returned result else .unlock result

/-- The heartbeat thread at `stopChannels`: it answers at its `waitForAnswer`, and then ends,
or calls the listener if it has missed its last round. -/
def answerStop (lastRound : Bool) (session : Session ι) : Session ι :=
  match session.heartbeat with
  | .listening => { session with heartbeat := if lastRound then .called else .ended }
  | _ => session

omit [DecidableEq ι] in
@[simp] theorem answerStop_id (lastRound : Bool) (session : Session ι) :
    (answerStop lastRound session).id = session.id := by
  unfold answerStop
  split <;> rfl

/-- `stopSession` from where it has its session. -/
def stopStep (s : State ι) (o i : Nat) (choice : Bool) : StopStage → State ι
  | .sampleAlive =>
    if (s.sessions i).any (·.alive) then s.goto o (.stopping .expectExit i)
    else s.goto o (.stopping (.grace 0) i)
  | .expectExit =>
    ((s.modify i fun x => { x with expectingExit := true, answeredShutdown := false }).note
      (.expecting i)).goto o (.stopping (.grace 0) i)
  | .grace n =>
    if (s.sessions i).any fun x => x.alive && (n < 20 || (x.answeredShutdown && n < 120)) then
      s.goto o (.stopping (.grace (n + 1)) i)
    else s.goto o (.stopping .stopPolling i)
  | .stopPolling => (s.modify i fun x => { x with polling := false }).goto o (.stopping .join i)
  | .join =>
    -- not joinable, or over; else the thread waits here
    if (s.sessions i).all fun x => x.pollThread = .notStarted || x.pollThread = .ended then
      s.goto o (.stopping .stopChannels i)
    else s
  | .stopChannels => (s.modify i (answerStop choice)).goto o (.stopping .kill i)
  | .kill => (s.modify i fun x => { x with alive := false }).goto o (.stopping .setStopped i)
  | .setStopped =>
    (s.modify i fun x => { x with status := .stopped }).goto o (.stopping .erase i)
  | .erase =>
    (s.register (req.id o) none).goto o
      (if req.kind o = .restart then .restartErase (some i) else .unlock (.stopped i))

/-- `createSessionWithId` from where it has started its process. A failure destroys the
session object, and with it the process. -/
def createStep (s : State ι) (o j : Nat) (choice : Bool) : CreateStage → State ι
  | .awaitRegistration =>
    if choice then s.goto o (.creating .startClient j)
    else (s.modify j fun x => { x with alive := false }).goto o (finish req o .failed)
  | .startClient =>
    if choice then s.goto o (.creating .listen j)
    else (s.modify j fun x => { x with alive := false }).goto o (finish req o .failed)
  | .listen => (s.modify j fun x => { x with heartbeat := .listening }).goto o (.creating .setReady j)
  | .setReady => (s.modify j fun x => { x with status := .ready }).goto o (.creating .insert j)
  | .insert => (s.register (req.id o) (some j)).goto o (.creating .setPolling j)
  | .setPolling => (s.modify j fun x => { x with polling := true }).goto o (.creating .startPoll j)
  | .startPoll =>
    (s.modify j fun x => { x with pollThread := .checkPolling }).goto o (finish req o (.created j))

/-- The next step of operation `o`; `choice` is how a step that can go two ways goes. -/
def opStep (s : State ι) (o : Nat) (choice : Bool) : State ι :=
  match s.ops o with
  | .idle => s.goto o (if req.kind o = .create then .validate else .lock)
  | .lock =>
    if s.locks (req.id o) = none then
      (s.setLock (req.id o) (some o)).goto o
        (if req.kind o = .restart then .getSession else .stopGetSession)
    else s
  | .getSession =>
    match s.registry (req.id o) with
    | some _ => s.goto o .stopGetSession
    | none => s.goto o (.unlock .failed)
  | .stopGetSession =>
    match s.registry (req.id o) with
    | some i => s.goto o (.stopping .sampleAlive i)
    | none => s.goto o (if req.kind o = .restart then .restartErase none else .unlock .failed)
  | .stopping stage i => stopStep req s o i choice stage
  | .restartErase _ => (s.register (req.id o) none).goto o .validate
  | .validate => if choice then s.goto o .spawn else s.goto o (finish req o .failed)
  | .spawn =>
    if choice then
      { s with
        sessions := Function.update s.sessions s.launches (some { id := req.id o })
        launches := s.launches + 1 }.goto o (.creating .awaitRegistration s.launches)
    else s.goto o (finish req o .failed)
  | .creating stage j => createStep req s o j choice stage
  | .unlock result => (s.setLock (req.id o) none).goto o (.returned result)
  | .returned _ => s

/-- What the poll thread does next to its session; `answered` is whether its drain finds a
`shutdown_reply`. -/
def Session.poll (answered : Bool) (x : Session ι) : Session ι :=
  match x.pollThread with
  | .checkPolling => { x with pollThread := if x.polling then .sampleExit else .ended }
  | .sampleExit => { x with pollThread := .drain (!x.alive) }
  | .drain exited =>
    { x with
      answeredShutdown := x.answeredShutdown || answered
      pollThread := if exited then .checkExpecting else .checkPolling }
  | .checkExpecting =>
    { x with pollThread := if x.expectingExit then .stopPolling else .storeCrashed }
  | .storeCrashed => { x with status := .crashed, pollThread := .emitExit }
  | .emitExit => { x with pollThread := .stopPolling }
  | .stopPolling => { x with polling := false, pollThread := .ended }
  | .notStarted | .ended => x

def pollStep (s : State ι) (i : Nat) (answered : Bool) : State ι :=
  let s' := s.modify i (·.poll answered)
  if (s.sessions i).any (·.pollThread = .emitExit) then s'.note (.kernelExit i) else s'

/-- What the heartbeat thread does next to its session, when it gives up or in the listener. -/
def Session.beat (x : Session ι) : Session ι :=
  match x.heartbeat with
  | .listening => { x with heartbeat := .called }
  | .called =>
    { x with heartbeat := if x.status = .crashed || x.status = .stopped then .ended else .passed }
  | .passed => { x with status := .crashed, heartbeat := .report }
  | .report => { x with heartbeat := .reported }
  | .silent | .reported | .ended => x

def heartbeatStep (s : State ι) (i : Nat) : State ι :=
  let s' := s.modify i (·.beat)
  if (s.sessions i).any (·.heartbeat = .report) then s'.note (.kernelExit i) else s'

/-- What can happen next. -/
inductive Event where
  | op (o : Nat) (choice : Bool)
  | poll (i : Nat) (answered : Bool)
  | heartbeat (i : Nat)
  | die (i : Nat)
deriving DecidableEq, Repr

def step (s : State ι) : Event → State ι
  | .op o choice => opStep req s o choice
  | .poll i answered => pollStep s i answered
  | .heartbeat i => heartbeatStep s i
  | .die i => s.modify i fun x => { x with alive := false }

/-- The state after the events `es`, from an empty registry. -/
def run (es : List Event) : State ι :=
  es.foldl (step req) {}

/-- The registry as a transition system. -/
def system : Transition.System (State ι) Event :=
  .ofFn {} (step req)

end Jovian.Registry
