import Jovian.Lib.Transition
import Mathlib.Logic.Function.Basic

/-!
# Jovian — the processes a supervisor starts (`KernelProcess`, POSIX)

Any number of `KernelProcess` objects share one table of processes. A process keeps its id
until it is waited for, then the id is free and the system may give it to any other process.
The calls on one object are made one after another; between two *system calls* of one call
anything may happen: the process ends or is stopped, ids are given away, and the calls on
other objects take their steps.

`waitpidCached` remembers that the process is gone, `kill` forgets its id. What both are for:

* **`calls_reach_own`** — a signal reaches the process its sender started, no wait fails, and an end
  that is told is how that process ended.
* **`killed_iff`** — what `kill` leaves behind.

A wait that reports a *stop* (`WUNTRACED`) is taken for the process's end.
-/

namespace Jovian.KernelProcess

/-! ## The system -/

/-- How a process ends: `WIFEXITED` or `WIFSIGNALED`. -/
inductive Ending where
  | exited (code : Nat)
  | signaled (sig : Nat)
deriving DecidableEq, Repr

/-- What a wait reports. -/
inductive WaitStatus where
  | ended (e : Ending)
  | stopped (sig : Nat)
deriving DecidableEq, Repr

inductive Phase where
  | running
  /-- `told`: a wait has reported this stop. -/
  | stopped (sig : Nat) (told : Bool)
  | zombie (e : Ending)
deriving DecidableEq, Repr

/-- How the process has ended, if it has. -/
def Phase.ending? : Phase → Option Ending
  | .zombie e => some e
  | _ => none

structure Proc where
  /-- The `KernelProcess` that forked it; not a child of the supervisor's when there is none. -/
  owner : Option Nat
  phase : Phase
deriving DecidableEq, Repr

abbrev Table := Nat → Option Proc

/-- `waitpid`'s answer: the id, `0`, or `-1`. -/
inductive Waited where
  | pid (status : WaitStatus)
  | zero
  | failed
deriving DecidableEq, Repr

/-- `waitpid(pid, &status, WNOHANG)`, with `WUNTRACED` or without. -/
def waitpid (procs : Table) (pid : Nat) (untraced : Bool) : Waited × Table :=
  match procs pid with
  | some ⟨some _, .zombie e⟩ => (.pid (.ended e), Function.update procs pid none)
  | some ⟨some k, .stopped sig false⟩ =>
    if untraced then
      (.pid (.stopped sig), Function.update procs pid (some ⟨some k, .stopped sig true⟩))
    else (.zero, procs)
  | some ⟨some _, _⟩ => (.zero, procs)
  | _ => (.failed, procs)

/-! ## The objects -/

/-- Where the object's call is, between two system calls. -/
inductive Call where
  | none
  /-- `start`: forked, and reading the exec-status pipe. -/
  | starting (pid : Nat)
  /-- `interrupt`: `isAlive` was true. -/
  | interrupting
  /-- `kill`: the signal is sent, the process is waited for. -/
  | killing
deriving DecidableEq, Repr

structure Kernel where
  interruptBySignal : Bool := false
  launched : Bool := false
  /-- `m_processId`, where it is positive. -/
  processId : Option Nat := none
  reaped : Bool := false
  exitStatus : WaitStatus := .ended (.exited 0)
  call : Call := .none
deriving DecidableEq, Repr

inductive Signal where
  | sigint | sigkill
deriving DecidableEq, Repr

/-- A signal, and whose process had the id it was sent to. -/
structure Sent where
  kernel : Nat
  signal : Signal
  got : Option Proc
deriving DecidableEq, Repr

structure World where
  procs : Table := fun _ => none
  kernels : Nat → Kernel := fun _ => {}
  signals : List Sent := []
  /-- What `describeStatus` answered. -/
  described : List (Nat × String) := []
  /-- The objects whose `waitpid` failed. -/
  failures : List Nat := []
  /-- How the object's process ended. -/
  fate : Nat → Option Ending := fun _ => none

namespace World

/-- Whose process has the id. -/
def owner (w : World) (pid : Nat) : Option Nat := (w.procs pid).bind Proc.owner

def setKernel (w : World) (k : Nat) (q : Kernel) : World :=
  { w with kernels := Function.update w.kernels k q }

def setProc (w : World) (pid : Nat) (p : Option Proc) : World :=
  { w with procs := Function.update w.procs pid p }

/-- `::kill(pid, sig)` -/
def send (w : World) (k pid : Nat) (sig : Signal) : World :=
  { w with signals := w.signals ++ [⟨k, sig, w.procs pid⟩] }

/-- `KernelProcess::waitpidCached` -/
def waitpidCached (w : World) (k pid : Nat) (untraced : Bool) : Waited × World :=
  if (w.kernels k).reaped then (.pid (w.kernels k).exitStatus, w)
  else
    match waitpid w.procs pid untraced with
    | (.pid status, procs) =>
      (.pid status, { w with procs := procs }.setKernel k
        { w.kernels k with reaped := true, exitStatus := status })
    | (.zero, procs) => (.zero, { w with procs := procs })
    | (.failed, procs) => (.failed, { w with procs := procs, failures := w.failures ++ [k] })

/-- `KernelProcess::isAlive` -/
def isAlive (w : World) (k : Nat) : Bool × World :=
  match (w.kernels k).processId with
  | none => (false, w)
  | some pid =>
    let waited := w.waitpidCached k pid false
    (waited.1 = .zero, waited.2)

section

variable {w : World} {k k' pid : Nat} {q : Kernel} {p : Option Proc} {sig : Signal}

@[simp] theorem kernels_setKernel : (w.setKernel k q).kernels k = q := Function.update_self ..

theorem kernels_setKernel_ne (h : k' ≠ k) : (w.setKernel k q).kernels k' = w.kernels k' :=
  Function.update_of_ne h ..

@[simp] theorem procs_setKernel : (w.setKernel k q).procs = w.procs := rfl
@[simp] theorem owner_setKernel : (w.setKernel k q).owner = w.owner := rfl
@[simp] theorem kernels_setProc : (w.setProc pid p).kernels = w.kernels := rfl
@[simp] theorem kernels_send : (w.send k pid sig).kernels = w.kernels := rfl
@[simp] theorem owner_send : (w.send k pid sig).owner = w.owner := rfl

theorem owner_setProc :
    (w.setProc pid p).owner = Function.update w.owner pid (p.bind Proc.owner) := by
  funext pid'
  by_cases h : pid' = pid
  · subst h
    simp [owner, setProc]
  · simp [owner, setProc, h]

/-- What is said of the process changes, not whose it is. -/
theorem owner_setProc_same (h : p.bind Proc.owner = w.owner pid) : (w.setProc pid p).owner = w.owner := by
  rw [owner_setProc, h, Function.update_eq_self]

end

end World

/-- The status as a number: `code << 8`, `sig`, `sig << 8 | 0x7f`. -/
def WaitStatus.raw : WaitStatus → Nat
  | .ended (.exited code) => code * 256
  | .ended (.signaled sig) => sig
  | .stopped sig => sig * 256 + 0x7f

/-- What `describeStatus` makes of a status. -/
def WaitStatus.text : WaitStatus → String
  | .ended (.exited code) => "process exited with code " ++ toString code
  | .ended (.signaled sig) =>
    "process terminated by signal " ++ toString sig ++
      (if sig = 11 then " (SIGSEGV -- a native crash, e.g. in a compiled R package)"
        else if sig = 6 then " (SIGABRT)" else "")
  | .stopped sig =>
    "process status unknown (raw status " ++ toString (WaitStatus.stopped sig).raw ++ ")"

def neverStarted : String := "process was never started or has already been cleaned up"

def stillRunning : String :=
  "process is still running -- likely hung or blocked rather than crashed"

def queryFailed : String := "unable to query process status (waitpid failed)"

/-- `KernelProcess::describeStatus` -/
def World.describeStatus (w : World) (k : Nat) : String × World :=
  match (w.kernels k).processId with
  | none => (neverStarted, w)
  | some pid =>
    match w.waitpidCached k pid true with
    | (.zero, w) => (stillRunning, w)
    | (.failed, w) => (queryFailed, w)
    | (.pid _, w) => ((w.kernels k).exitStatus.text, w)

/-! ## Steps -/

inductive Event where
  /-- A child of the supervisor's ends, is stopped, goes on. -/
  | ends (pid : Nat) (e : Ending)
  | stops (pid sig : Nat)
  | continues (pid : Nat)
  /-- Another process is given the id, or gives it back. -/
  | foreignForks (pid : Nat)
  | foreignGone (pid : Nat)
  /-- `start`, to its fork; then what the exec-status pipe says. -/
  | fork (k pid : Nat)
  | execRead (k : Nat) (failed : Bool)
  | isAlive (k : Nat)
  /-- `interrupt`, to its signal; then the signal. -/
  | interrupt (k : Nat)
  | sigint (k : Nat)
  /-- `kill`, to its signal; then the wait. -/
  | kill (k : Nat)
  | killed (k : Nat)
  | describeStatus (k : Nat)
deriving DecidableEq, Repr

open World in
/-- What cannot happen leaves everything as it is. -/
def step (w : World) : Event → World
  | .ends pid e =>
    match w.procs pid with
    | some ⟨some _, .zombie _⟩ => w
    | some ⟨some k, _⟩ =>
      { w.setProc pid (some ⟨some k, .zombie e⟩) with fate := Function.update w.fate k (some e) }
    | _ => w
  | .stops pid sig =>
    match w.procs pid with
    | some ⟨some k, .running⟩ => w.setProc pid (some ⟨some k, .stopped sig false⟩)
    | _ => w
  | .continues pid =>
    match w.procs pid with
    | some ⟨some k, .stopped _ _⟩ => w.setProc pid (some ⟨some k, .running⟩)
    | _ => w
  | .foreignForks pid =>
    match w.procs pid with
    | none => w.setProc pid (some ⟨none, .running⟩)
    | some _ => w
  | .foreignGone pid =>
    match w.procs pid with
    | some ⟨none, _⟩ => w.setProc pid none
    | _ => w
  | .fork k pid =>
    let q := w.kernels k
    if q.launched = false ∧ w.procs pid = none then
      (w.setProc pid (some ⟨some k, .running⟩)).setKernel k
        { q with launched := true, call := .starting pid }
    else w
  | .execRead k failed =>
    let q := w.kernels k
    match q.call with
    | .starting pid =>
      if failed then
        -- `waitpid(pid, nullptr, 0)`: it returns once the child has ended
        match waitpid w.procs pid false with
        | (.pid _, procs) => { w with procs := procs }.setKernel k { q with call := .none }
        | (.zero, _) => w
        | (.failed, procs) =>
          { w with procs := procs, failures := w.failures ++ [k] }.setKernel k { q with call := .none }
      else w.setKernel k { q with processId := some pid, call := .none }
    | _ => w
  | .isAlive k => if (w.kernels k).call = .none then (w.isAlive k).2 else w
  | .interrupt k =>
    if (w.kernels k).call = .none ∧ (w.kernels k).interruptBySignal then
      match w.isAlive k with
      | (true, w) => w.setKernel k { w.kernels k with call := .interrupting }
      | (false, w) => w
    else w
  | .sigint k =>
    let q := w.kernels k
    match q.call, q.processId with
    | .interrupting, some pid => (w.send k pid .sigint).setKernel k { q with call := .none }
    | _, _ => w
  | .kill k =>
    let q := w.kernels k
    match q.call, q.processId with
    | .none, some pid =>
      if q.reaped then w.setKernel k { q with processId := none }
      else (w.send k pid .sigkill).setKernel k { q with call := .killing }
    | _, _ => w
  | .killed k =>
    match (w.kernels k).call, (w.kernels k).processId with
    | .killing, some pid =>
      match w.waitpidCached k pid false with
      | (.zero, _) => w
      | (_, w) => w.setKernel k { w.kernels k with processId := none, call := .none }
    | _, _ => w
  | .describeStatus k =>
    if (w.kernels k).call = .none then
      let answer := w.describeStatus k
      { answer.2 with described := answer.2.described ++ [(k, answer.1)] }
    else w

/-- Any objects, none of them started: each is interrupted by a signal or not. -/
def initial (interruptBySignal : Nat → Bool) : World where
  kernels k := { interruptBySignal := interruptBySignal k }

def run (interruptBySignal : Nat → Bool) (es : List Event) : World :=
  es.foldl step (initial interruptBySignal)

end Jovian.KernelProcess
