import Jovian.Supervisor.SessionOptions
import Mathlib.Logic.Function.Basic

/-!
# Jovian — launching a kernel, and restarting a session

`createSessionWithId`, `stopSession` and `restartSession` as one caller sees them: an id's
operations hold its lock for their whole length, so each is one step here. (What their threads
share, step by step, is in `Jovian.Registry`.)

A launch goes from the options to an executable, a process, its registration and its
channels; each step may fail. `Launches` says that none does.

* **`restart_keeps_session_iff`** — a restart that fails leaves a session that can be restarted
  exactly when it cannot fail: the old session is erased before the new kernel is tried.

A `Machine` is what a launch meets at its time: files, processes, sockets.
-/

namespace Jovian.Supervisor

/-! ## Launching -/

/-- The options a kernel's process is given. -/
def TextField.launched : List TextField :=
  [rHome, rPath, rLibs, pandocPath, pythonHome, pythonPath, venvPath, stataHome, stataEdition,
    workingDirectory]

structure KernelProcessOptions where
  kernelExePath : String
  text : TextField → String
  explicitArgs : List String := []
  extraEnv : List (String × String) := []
  interruptBySignal : Bool := false

structure Machine where
  isRegularFile : String → Bool
  isDirectory : String → Bool
  /-- `std::filesystem::temp_directory_path()` -/
  tempDirectory : Except String String
  /-- Five ports for a kernel that does not choose its own. -/
  freePorts : Except String Unit
  /-- The process itself: pipes, fork, exec. -/
  spawn : KernelProcessOptions → Except String Unit
  waitForConfiguration : Except String Unit
  /-- The client's sockets and threads; what fails here is thrown past `createSessionWithId`. -/
  startClient : Except String Unit

structure Session where
  options : SessionOptions
  /-- Which launch made it. -/
  launch : Nat
  /-- `callbackOwner`: the connection its messages go to. -/
  callbackOwner : Option Nat := none

structure SessionRegistry where
  /-- `m_kernelExePaths` -/
  kernelExePaths : List (String × String) := []
  /-- `m_sessions` -/
  sessions : String → Option Session := fun _ => none
  launches : Nat := 0

/-- How a creation fails: it returns no id, or an exception leaves it. -/
inductive Failure where
  | returned (error : String)
  | thrown (what : String)
deriving DecidableEq, Repr

/-- The executable to run; `""` where there is none. -/
def kernelExePath (kernelExePaths : List (String × String)) (options : SessionOptions) : String :=
  if options.text .kernelType = "jupyter" then
    options.kernelArgv.head?.getD ""
  else if options.text .kernelType = "ark" ∧ options.text .arkPath ≠ "" then
    options.text .arkPath
  else
    (kernelExePaths.lookup (options.text .kernelType)).getD ""

def missingExecutable (kernelType : String) : String :=
  if kernelType = "jupyter" then
    "kernelType 'jupyter' needs kernelArgv: the kernel's command, from its kernel.json"
  else if kernelType = "ark" then
    "kernelType 'ark' needs arkPath: the ark executable (Positron ships one)"
  else
    "no kernel executable is configured for kernelType '" ++ kernelType ++
      "' (this supervisor was started without one -- see main.cpp's kernel discovery)"

/-- What every kernel's process is given. -/
def processOptions (kernelExePath : String) (options : SessionOptions) : KernelProcessOptions where
  kernelExePath := kernelExePath
  text f := if f ∈ TextField.launched then options.text f else ""

/-- `startJupyterKernel`, up to the start of its process. -/
def prepareJupyterKernel (m : Machine) (id kernelExePath : String) (options : SessionOptions) :
    Except String KernelProcessOptions := do
  m.freePorts
  let temp ← m.tempDirectory
  let connectionPath := temp ++ "/jovian-kernel-" ++ id ++ ".json"
  let args := options.kernelArgv.tail.map fun arg => arg.replace "\x7bconnection_file\x7d" connectionPath
  if args = [] then
    throw "the kernel's command has no arguments: it needs \"\x7bconnection_file\x7d\" to know its ports"
  return { processOptions kernelExePath options with
    explicitArgs := args
    extraEnv := options.kernelEnv
    interruptBySignal := options.text .kernelInterruptMode ≠ "message" }

/-- A kernel that registers; Ark is told where by a file. -/
def prepareKernel (m : Machine) (id kernelExePath : String) (options : SessionOptions) :
    Except String KernelProcessOptions := do
  if options.text .kernelType = "ark" then
    let temp ← m.tempDirectory
    let registrationFile := temp ++ "/jovian-ark-" ++ id ++ ".json"
    return { processOptions kernelExePath options with
      explicitArgs := ["--connection_file", registrationFile, "--session-mode", "notebook"]
      extraEnv := if options.text .rHome ≠ "" then [("R_HOME", options.text .rHome)] else [] }
  return processOptions kernelExePath options

/-- `KernelProcess::start` -/
def KernelProcessOptions.start (p : KernelProcessOptions) (m : Machine) : Except String Unit :=
  let dir := p.text .workingDirectory
  if dir ≠ "" ∧ m.isDirectory dir = false then
    .error ("workingDirectory does not exist or is not a directory: " ++ dir)
  else m.spawn p

def prepare (m : Machine) (id kernelExePath : String) (options : SessionOptions) :
    Except String KernelProcessOptions :=
  if options.text .kernelType = "jupyter" then prepareJupyterKernel m id kernelExePath options
  else prepareKernel m id kernelExePath options

/-- From an executable to a registered kernel: what `createSessionWithId` catches. A Jupyter
kernel does not register. -/
def startKernel (m : Machine) (id kernelExePath : String) (options : SessionOptions) :
    Except String Unit := do
  let p ← prepare m id kernelExePath options
  p.start m
  if options.text .kernelType ≠ "jupyter" then m.waitForConfiguration

namespace SessionRegistry

def insert (r : SessionRegistry) (id : String) (s : Session) : SessionRegistry :=
  { r with sessions := Function.update r.sessions id (some s), launches := r.launches + 1 }

def erase (r : SessionRegistry) (id : String) : SessionRegistry :=
  { r with sessions := Function.update r.sessions id none }

def createSessionWithId (r : SessionRegistry) (m : Machine) (id : String)
    (options : SessionOptions) : SessionRegistry × Except Failure String :=
  let exe := kernelExePath r.kernelExePaths options
  if exe = "" then
    (r, .error (.returned (missingExecutable (options.text .kernelType))))
  else if m.isRegularFile exe = false then
    (r, .error (.returned ("kernel executable not found: " ++ exe)))
  else match startKernel m id exe options with
    | .error what => (r, .error (.returned what))
    | .ok () =>
      match m.startClient with
      | .error what => (r, .error (.thrown what))
      | .ok () => (r.insert id { options, launch := r.launches }, .ok id)

def stopSession (r : SessionRegistry) (id : String) : SessionRegistry × Bool :=
  match r.sessions id with
  | none => (r, false)
  | some _ => (r.erase id, true)

def restartSession (r : SessionRegistry) (m : Machine) (id : String)
    (newOptions : Option SessionOptions) : SessionRegistry × Except Failure String :=
  match r.sessions id with
  | none => (r, .error (.returned "session not found"))
  | some session =>
    let options := newOptions.getD session.options
    let r := (r.stopSession id).1
    (r.erase id).createSessionWithId m id options

/-! ## What is promised -/

/-- A restart of the id can start a kernel, given a machine that lets it. -/
def Restartable (r : SessionRegistry) (id : String) : Prop :=
  ∃ m, (r.restartSession m id none).2 = .ok id

/-- A restart that fails leaves the session restartable. -/
def FailsSafely (r : SessionRegistry) (m : Machine) (id : String)
    (newOptions : Option SessionOptions) : Prop :=
  ∀ failure, (r.restartSession m id newOptions).2 = .error failure →
    (r.restartSession m id newOptions).1.Restartable id

/-- No step of the launch fails. -/
structure Launches (kernelExePaths : List (String × String)) (m : Machine) (id : String)
    (options : SessionOptions) : Prop where
  executable : kernelExePath kernelExePaths options ≠ ""
  isFile : m.isRegularFile (kernelExePath kernelExePaths options) = true
  ports : options.text .kernelType = "jupyter" → m.freePorts = .ok ()
  file : options.text .kernelType = "jupyter" ∨ options.text .kernelType = "ark" →
    ∃ temp, m.tempDirectory = .ok temp
  arguments : options.text .kernelType = "jupyter" → options.kernelArgv.tail ≠ []
  directory : options.text .workingDirectory = "" ∨
    m.isDirectory (options.text .workingDirectory) = true
  spawns : ∀ p, prepare m id (kernelExePath kernelExePaths options) options = .ok p →
    m.spawn p = .ok ()
  registers : options.text .kernelType ≠ "jupyter" → m.waitForConfiguration = .ok ()
  connects : m.startClient = .ok ()

/-! ## The steps of a launch -/

section Prepare

variable (m : Machine) (id exe : String) (options : SessionOptions)

theorem prepareJupyterKernel_ok_iff :
    (∃ p, prepareJupyterKernel m id exe options = .ok p) ↔
      m.freePorts = .ok () ∧ (∃ temp, m.tempDirectory = .ok temp) ∧ options.kernelArgv.tail ≠ [] := by
  unfold prepareJupyterKernel
  generalize options.kernelArgv.tail = args
  cases hports : m.freePorts with
  | error what => simp [bind, Except.bind]
  | ok _ =>
    cases htemp : m.tempDirectory with
    | error what => simp [bind, Except.bind]
    | ok temp =>
      cases args with
      | nil => simp [bind, Except.bind, throw, throwThe, MonadExceptOf.throw]
      | cons arg args => simp [bind, Except.bind, pure, Except.pure]

theorem prepareKernel_ok_iff :
    (∃ p, prepareKernel m id exe options = .ok p) ↔
      (options.text .kernelType = "ark" → ∃ temp, m.tempDirectory = .ok temp) := by
  unfold prepareKernel
  by_cases hark : options.text .kernelType = "ark"
  · cases htemp : m.tempDirectory <;> simp [hark, bind, Except.bind, pure, Except.pure]
  · simp [hark, pure, Except.pure]

/-- A process is given the directory of its session. -/
theorem prepare_workingDirectory {p : KernelProcessOptions} (h : prepare m id exe options = .ok p) :
    p.text .workingDirectory = options.text .workingDirectory := by
  unfold prepare prepareJupyterKernel prepareKernel at h
  split at h
  · cases hports : m.freePorts <;> simp [hports, bind, Except.bind] at h
    cases htemp : m.tempDirectory <;> simp [htemp] at h
    split at h
    · cases h
    · cases h
      rfl
  · split at h
    · cases htemp : m.tempDirectory <;> simp [htemp, bind, Except.bind, pure, Except.pure] at h
      subst h
      rfl
    · cases h
      rfl

theorem start_ok_iff (p : KernelProcessOptions) :
    p.start m = .ok () ↔
      (p.text .workingDirectory = "" ∨ m.isDirectory (p.text .workingDirectory) = true) ∧
        m.spawn p = .ok () := by
  unfold KernelProcessOptions.start
  by_cases hdir : p.text .workingDirectory = ""
  · simp [hdir]
  · cases hisDir : m.isDirectory (p.text .workingDirectory) <;> simp [hdir, hisDir]

theorem startKernel_ok_iff :
    startKernel m id exe options = .ok () ↔
      (∃ p, prepare m id exe options = .ok p ∧ p.start m = .ok ()) ∧
        (options.text .kernelType ≠ "jupyter" → m.waitForConfiguration = .ok ()) := by
  unfold startKernel
  cases hp : prepare m id exe options with
  | error what => simp [bind, Except.bind]
  | ok p =>
    cases hstart : p.start m with
    | error what => simp [bind, Except.bind, hstart]
    | ok _ =>
      by_cases hjupyter : options.text .kernelType = "jupyter"
      · simp [bind, Except.bind, hstart, hjupyter, pure, Except.pure]
      · simp [bind, Except.bind, hstart, hjupyter]

end Prepare

/-- A launch whose steps all succeed, from what `createSessionWithId` sees of them. -/
theorem launches_iff (kernelExePaths : List (String × String)) (m : Machine) (id : String)
    (options : SessionOptions) :
    Launches kernelExePaths m id options ↔
      kernelExePath kernelExePaths options ≠ "" ∧
      m.isRegularFile (kernelExePath kernelExePaths options) = true ∧
      startKernel m id (kernelExePath kernelExePaths options) options = .ok () ∧
      m.startClient = .ok () := by
  rw [startKernel_ok_iff]
  constructor
  · intro h
    -- what is prepared is enough for the process to start, whatever it is prepared for
    have hprepared : ∃ p, prepare m id (kernelExePath kernelExePaths options) options = .ok p := by
      unfold prepare
      split
      · next hjupyter =>
        exact (prepareJupyterKernel_ok_iff ..).2
          ⟨h.ports hjupyter, h.file (.inl hjupyter), h.arguments hjupyter⟩
      · exact (prepareKernel_ok_iff ..).2 fun hark => h.file (.inr hark)
    obtain ⟨p, hp⟩ := hprepared
    have hdir := h.directory
    rw [← prepare_workingDirectory m id _ options hp] at hdir
    exact ⟨h.executable, h.isFile, ⟨⟨p, hp, (start_ok_iff m p).2 ⟨hdir, h.spawns p hp⟩⟩, h.registers⟩,
      h.connects⟩
  · rintro ⟨hexe, hfile, ⟨⟨p, hp, hstart⟩, hregisters⟩, hclient⟩
    have hstarted := (start_ok_iff m p).1 hstart
    rw [prepare_workingDirectory m id _ options hp] at hstarted
    -- back from what was prepared to what its kernel needs
    have hjupyter : options.text .kernelType = "jupyter" →
        m.freePorts = .ok () ∧ (∃ temp, m.tempDirectory = .ok temp) ∧
          options.kernelArgv.tail ≠ [] := fun htype => by
      rw [prepare, if_pos htype] at hp
      exact (prepareJupyterKernel_ok_iff ..).1 ⟨p, hp⟩
    have hark : options.text .kernelType = "ark" → ∃ temp, m.tempDirectory = .ok temp :=
      fun htype => by
        rw [prepare, if_neg (by simp [htype])] at hp
        exact (prepareKernel_ok_iff ..).1 ⟨p, hp⟩ htype
    exact {
      executable := hexe
      isFile := hfile
      ports := fun htype => (hjupyter htype).1
      file := fun htype => htype.elim (fun h => (hjupyter h).2.1) hark
      arguments := fun htype => (hjupyter htype).2.2
      directory := hstarted.1
      spawns := fun q hq => by
        have hqp : q = p := Except.ok.inj (hq.symm.trans hp)
        rw [hqp]
        exact hstarted.2
      registers := hregisters
      connects := hclient }

section Steps

variable (r : SessionRegistry) (m : Machine) (id other : String) (s : Session)

@[simp] theorem insert_sessions :
    (r.insert id s).sessions other = if other = id then some s else r.sessions other :=
  Function.update_apply ..
@[simp] theorem insert_kernelExePaths : (r.insert id s).kernelExePaths = r.kernelExePaths := rfl
@[simp] theorem erase_sessions :
    (r.erase id).sessions other = if other = id then none else r.sessions other :=
  Function.update_apply ..
@[simp] theorem erase_kernelExePaths : (r.erase id).kernelExePaths = r.kernelExePaths := rfl
@[simp] theorem stopSession_kernelExePaths :
    (r.stopSession id).1.kernelExePaths = r.kernelExePaths := by
  unfold stopSession
  split <;> rfl

/-- **What a creation does**: it registers the session, or fails and leaves all as it is. -/
theorem createSessionWithId_cases (options : SessionOptions) :
    (Launches r.kernelExePaths m id options ∧ r.createSessionWithId m id options =
      (r.insert id { options, launch := r.launches }, .ok id)) ∨
    (¬ Launches r.kernelExePaths m id options ∧
      ∃ failure, r.createSessionWithId m id options = (r, .error failure)) := by
  rw [launches_iff]
  unfold createSessionWithId
  by_cases hexe : kernelExePath r.kernelExePaths options = ""
  · exact .inr ⟨fun h => h.1 hexe, _, if_pos hexe⟩
  · simp only [if_neg hexe]
    cases hfile : m.isRegularFile (kernelExePath r.kernelExePaths options) with
    | false => exact .inr ⟨by simp, _, rfl⟩
    | true =>
      simp only [Bool.true_eq_false, if_false]
      cases hstart : startKernel m id (kernelExePath r.kernelExePaths options) options with
      | error what => exact .inr ⟨by simp, _, rfl⟩
      | ok _ =>
        cases hclient : m.startClient with
        | error what => exact .inr ⟨by simp, _, rfl⟩
        | ok _ => exact .inl ⟨⟨hexe, trivial, rfl, rfl⟩, rfl⟩

theorem restartSession_missing (newOptions : Option SessionOptions) (h : r.sessions id = none) :
    r.restartSession m id newOptions = (r, .error (.returned "session not found")) := by
  simp only [restartSession, h]

theorem restartSession_found {session : Session} (newOptions : Option SessionOptions)
    (h : r.sessions id = some session) :
    r.restartSession m id newOptions =
      ((r.stopSession id).1.erase id).createSessionWithId m id (newOptions.getD session.options) := by
  simp only [restartSession, h]

/-- An id that is not registered cannot be restarted, on any machine. -/
theorem not_restartable (h : r.sessions id = none) : ¬ r.Restartable id := by
  rintro ⟨m, hm⟩
  rw [restartSession_missing r m id none h] at hm
  simp at hm

end Steps

/-- **When a failed restart keeps the session restartable**: exactly when the launch cannot fail.
The old session is erased before its successor is tried, and nothing puts it back. -/
theorem restart_keeps_session_iff {r : SessionRegistry} {id : String} {session : Session}
    (hregistered : r.sessions id = some session) (m : Machine) (newOptions : Option SessionOptions) :
    r.FailsSafely m id newOptions ↔
      Launches r.kernelExePaths m id (newOptions.getD session.options) := by
  unfold FailsSafely
  rw [restartSession_found r m id newOptions hregistered]
  have hcases := ((r.stopSession id).1.erase id).createSessionWithId_cases m id
    (newOptions.getD session.options)
  rw [erase_kernelExePaths, stopSession_kernelExePaths] at hcases
  obtain ⟨hlaunches, hcreated⟩ | ⟨hfails, failure, hfailed⟩ := hcases
  · refine iff_of_true (fun failure h => ?_) hlaunches
    rw [hcreated] at h
    simp at h
  · refine iff_of_false (fun h => ?_) hfails
    have hrestartable := h failure (by rw [hfailed])
    rw [hfailed] at hrestartable
    exact not_restartable _ id (by simp) hrestartable

/-- A machine where all goes well, but for one directory that is gone. -/
def workingMachine : Machine where
  isRegularFile _ := true
  isDirectory dir := dir ≠ "/gone"
  tempDirectory := .ok "/tmp"
  freePorts := .ok ()
  spawn _ := .ok ()
  waitForConfiguration := .ok ()
  startClient := .ok ()

/-- An R session `"s"`, its kernel running. -/
def rSession : SessionRegistry where
  kernelExePaths := [("r", "/opt/elara")]
  sessions := Function.update (fun _ => none) "s"
    (some { options := { text := TextField.default }, launch := 0 })
  launches := 1

theorem restart_keeps_session_iff_rSession :
    rSession.FailsSafely workingMachine "s" none ↔
      Launches [("r", "/opt/elara")] workingMachine "s" { text := TextField.default } :=
  @restart_keeps_session_iff rSession "s" { options := { text := TextField.default }, launch := 0 }
    rfl workingMachine none

/-- **A typing error in a directory costs the session**: the restart fails, and so does any
restart after it. -/
theorem failed_restart_loses_session :
    let gone : SessionOptions :=
      { text := fun f => if f = .workingDirectory then "/gone" else f.default }
    let failed := rSession.restartSession workingMachine "s" (some gone)
    failed.2 = .error (.returned "workingDirectory does not exist or is not a directory: /gone") ∧
      ∀ m newOptions, (failed.1.restartSession m "s" newOptions).2 =
        .error (.returned "session not found") := by
  intro gone failed
  have hfailed : failed.2 =
      .error (.returned "workingDirectory does not exist or is not a directory: /gone") := by
    rfl
  have hlost : failed.1.sessions "s" = none := by decide
  refine ⟨hfailed, fun m newOptions => ?_⟩
  rw [restartSession_missing failed.1 m "s" newOptions hlost]

end SessionRegistry

end Jovian.Supervisor
