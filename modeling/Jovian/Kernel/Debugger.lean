import Jovian.Lib.JsonText
import Jovian.Lib.Transition

/-!
# Jovian — debug requests and R's thread (`RDebugger`)

While a cell runs, a `debug_request` is handled on the control watcher's thread, one after the
other. What needs R is queued for R's thread, which takes it in `stopped()`, at R's browser prompt,
until it is told how to go on. Both threads work under `m_mutex`; each of its critical sections is
one step here, and so is each look at a flag outside of it.

R's thread looks for a job before it looks for the command that resumes it. When nothing came for a
while it looks at two flags, and leaves the stop for either of them without another look at what
was queued or accepted since.

R's code that a job runs can itself stop at a breakpoint: the stop is then entered again, inside.
-/

namespace Jovian.Debugger

open Json (Error)

/-! ## Requests and responses -/

/-- A `debug_request`: its `seq`, its command, and the members of its `arguments`. -/
structure Request where
  seq : Int
  command : String
  arguments : List (String × Json)

def Request.content (r : Request) : Json :=
  .object [("type", .string "request"), ("seq", .number (toString r.seq)),
    ("command", .string r.command), ("arguments", .object r.arguments)]

/-- What `get<int>` takes: a number, which keeps its spelling, or a boolean. -/
def number? : Json → Option String
  | .number spelling => some spelling
  | .bool b => some (if b then "1" else "0")
  | _ => none

def response (request : Json) (success : Bool) (body : Json) (message : String) :
    Except Error Json := do
  let seq ← request.value "seq" "0" number?
  let command ← request.valueString "command" ""
  return .object ([("type", .string "response"), ("seq", .number "0"), ("request_seq", .number seq),
    ("success", .bool success), ("command", .string command), ("body", body)] ++
    if message = "" then [] else [("message", .string message)])

/-- What the sweep behind a stop answers. -/
def unanswerable : Json :=
  .object [("type", .string "response"), ("success", .bool false),
    ("message", .string "R is running")]

/-- **A request's own response**: it carries its `seq` and its command. -/
structure Answers (r : Request) (j : Json) : Prop where
  type : j.get? "type" = some (.string "response")
  seq : j.get? "request_seq" = some (.number (toString r.seq))
  command : j.get? "command" = some (.string r.command)

/-! ## What is given from outside -/

/-- R's objects, numbers as `int`s, and the files. -/
structure World where
  Object : Type
  /-- `R_GlobalEnv` -/
  global : Object
  int : String → Int
  tmpPrefix : String
  /-- The text of a source file, if it can be read. -/
  source : String → Option String

/-- A call that is debugged, and where it is. -/
structure Frame where
  name : String
  path : String
  line : Int
  column : Int

structure Row where
  name : String
  value : String
  type : String

/-- What hera returns to a job. -/
structure Hera (w : World) where
  /-- `.jv.debug.stack` -/
  stack : List (Frame × w.Object) := []
  /-- `.jv.debug.variables`: the rows, and the children that can be opened. -/
  rows : List (Row × Option w.Object) := []
  /-- `.jv.debug.evaluate` -/
  result : Json := .null
  child : Option w.Object := none

def integer (n : Int) : Json := .number (toString n)

variable (w : World)

def valueInt (j : Json) (key : String) : Except Error Int :=
  w.int <$> j.value key "0" number?

/-! ## Cells as files -/

def murmurMix (k : UInt32) : UInt32 :=
  let k := k * 0x5bd1e995
  (k ^^^ (k >>> 24)) * 0x5bd1e995

def murmurBlocks : UInt32 → List UInt8 → UInt32
  | h, a :: b :: c :: d :: rest =>
    let k := a.toUInt32 ||| (b.toUInt32 <<< 8) ||| (c.toUInt32 <<< 16) ||| (d.toUInt32 <<< 24)
    murmurBlocks ((h * 0x5bd1e995) ^^^ murmurMix k) rest
  | h, [a, b, c] =>
    (h ^^^ (c.toUInt32 <<< 16) ^^^ (b.toUInt32 <<< 8) ^^^ a.toUInt32) * 0x5bd1e995
  | h, [a, b] => (h ^^^ (b.toUInt32 <<< 8) ^^^ a.toUInt32) * 0x5bd1e995
  | h, [a] => (h ^^^ a.toUInt32) * 0x5bd1e995
  | h, [] => h

def murmur2 (data : List UInt8) (seed : UInt32) : UInt32 :=
  let h := murmurBlocks (seed ^^^ UInt32.ofNat data.length) data
  let h := (h ^^^ (h >>> 13)) * 0x5bd1e995
  h ^^^ (h >>> 15)

def hashSeed : UInt32 := 3339675911

def cellPath (code : String) : String :=
  w.tmpPrefix ++ toString (murmur2 code.toUTF8.toList hashSeed) ++ ".r"

/-! ## What is answered on any thread -/

/-- What the control thread works on, and the events for the client. -/
structure Client where
  started : Bool := false
  breakpoints : List (String × List Int) := []
  breakpointsChanged : Bool := false
  seq : Nat := 0
  events : List Json := []

def Client.event (name : String) (body : Json) (c : Client) : Client :=
  { c with
    seq := c.seq + 1
    events := c.events ++ [.object [("type", .string "event"), ("seq", integer (c.seq + 1)),
      ("event", .string name), ("body", body)]] }

/-- `m_breakpoints[path] = lines`, in the order of the paths. -/
def setLines (path : String) (lines : List Int) : List (String × List Int) → List (String × List Int)
  | [] => [(path, lines)]
  | (p, ls) :: rest =>
    if path = p then (path, lines) :: rest
    else if path < p then (path, lines) :: (p, ls) :: rest
    else (p, ls) :: setLines path lines rest

/-- A handler, with `m_stopped`, the request, its arguments, and what it works on. -/
abbrev Handler := Bool → Json → Json → Client → Except Error (Json × Client)

def success (body : Json) : Handler := fun _ req _ c => do
  return (← response req true body "", c)

def onInitialize : Handler :=
  success (.object [("supportsConfigurationDoneRequest", .bool true),
    ("supportsEvaluateForHovers", .bool true), ("supportsConditionalBreakpoints", .bool false),
    ("supportsStepBack", .bool false), ("supportsSetVariable", .bool false),
    ("supportsTerminateRequest", .bool false), ("exceptionBreakpointFilters", .array [])])

def attach : Handler := fun _ req _ c => do
  let c := { c with started := true }
  let reply ← response req true (.object []) ""
  return (reply, c.event "initialized" (.object []))

def configurationDone : Handler := success (.object [])

def debugInfo : Handler := fun stopped req _ c => do
  let breakpoints := c.breakpoints.map fun (path, lines) =>
    Json.object [("source", .string path),
      ("breakpoints", .array (lines.map fun line => .object [("line", integer line)]))]
  let reply ← response req true (.object [("isStarted", .bool c.started),
    ("hashMethod", .string "Murmur2"), ("hashSeed", integer hashSeed.toNat),
    ("tmpFilePrefix", .string w.tmpPrefix), ("tmpFileSuffix", .string ".r"),
    ("breakpoints", .array breakpoints),
    ("stoppedThreads", .array (if stopped then [integer 1] else [])),
    ("richRendering", .bool false), ("exceptionPaths", .array [])]) ""
  return (reply, c)

def dumpCell : Handler := fun _ req args c => do
  let code ← args.valueString "code" ""
  return (← response req true (.object [("sourcePath", .string (cellPath w code))]) "", c)

/-- `args.value("source", object).value("path", "")` -/
def sourcePath (args : Json) : Except Error String := do
  let source ← args.valueJson "source" (.object [])
  source.valueString "path" ""

/-- What a range-for over a value takes: a scalar is its own element. -/
def elements : Json → List Json
  | .array elements => elements
  | .object members => members.map (·.2)
  | .null => []
  | j => [j]

def setBreakpoints : Handler := fun _ req args c => do
  let path ← sourcePath args
  let breakpoints ← args.valueJson "breakpoints" (.array [])
  let lines ← (elements breakpoints).mapM fun b => valueInt w b "line"
  let verified := lines.map fun line =>
    Json.object [("verified", .bool true), ("line", integer line),
      ("source", .object [("path", .string path)])]
  let c := { c with
    breakpoints :=
      -- a source that has none any more is forgotten
      if lines.isEmpty then c.breakpoints.filter (·.1 ≠ path) else setLines path lines c.breakpoints
    breakpointsChanged := true }
  return (← response req true (.object [("breakpoints", .array verified)]) "", c)

def threads : Handler :=
  success (.object [("threads", .array [.object [("id", integer 1), ("name", .string "R")]])])

def scopes : Handler := fun _ req args c => do
  let frame ← valueInt w args "frameId"
  let scope (name : String) (reference : Int) : Json :=
    .object [("name", .string name), ("variablesReference", integer reference),
      ("expensive", .bool false)]
  return (← response req true (.object [("scopes",
    .array [scope "Locals" frame, scope "Globals" 0x7fffffff])]) "", c)

def source : Handler := fun _ req args c => do
  let path ← sourcePath args
  let reply ← match w.source path with
    | none => response req false (.object []) ("no such source: " ++ path)
    | some text => response req true (.object [("content", .string text)]) ""
  return (reply, c)

def handlers : List (String × Handler) :=
  [("initialize", onInitialize), ("attach", attach), ("launch", attach),
    ("configurationDone", configurationDone), ("debugInfo", debugInfo w), ("dumpCell", dumpCell w),
    ("setBreakpoints", setBreakpoints w), ("threads", threads), ("scopes", scopes w),
    ("source", source w)]

/-! ## What needs R -/

/-- What R's thread works on: `variablesReference`s, and where R is. -/
structure Context where
  references : List (Nat × w.Object) := []
  nextReference : Nat := 1
  frames : List Json := []
  locationPath : String := ""
  locationLine : Int := 0

variable {w}

def reference (object : w.Object) (c : Context w) : Nat × Context w :=
  (c.nextReference, { c with
    references := c.references ++ [(c.nextReference, object)]
    nextReference := c.nextReference + 1 })

def referenced (id : Int) (c : Context w) : Option w.Object :=
  if id = 0x7fffffff then some w.global
  else (c.references.find? fun entry => (entry.1 : Int) = id).map (·.2)

def clearReferences (c : Context w) : Context w := { c with references := [], frames := [] }

/-- The reference of a child that can be opened, or 0. -/
def childReference (child : Option w.Object) (c : Context w) : Nat × Context w :=
  match child with
  | none => (0, c)
  | some object => reference object c

/-- Work for R's thread, on what hera returns. -/
abbrev Work (w : World) := Hera w → Json → Context w → Except Error (Json × Context w)

def describeFrames : List (Frame × w.Object) → Context w → List Json × Context w
  | [], c => ([], c)
  | (frame, env) :: rest, c =>
    let (id, c) := reference env c
    let (out, c) := describeFrames rest c
    (.object ([("id", integer id), ("name", .string frame.name), ("line", integer frame.line),
      ("column", integer frame.column)] ++ if frame.path = "" then [] else
        [("source", .object [("path", .string frame.path),
          ("name", .string ((frame.path.splitOn "/").getLastD ""))])]) :: out, c)

def stackTrace : Work w := fun hera req c => do
  let (frames, c) := if c.frames.isEmpty then describeFrames hera.stack c else (c.frames, c)
  let reply ← response req true (.object [("stackFrames", .array frames),
    ("totalFrames", integer frames.length)]) ""
  return (reply, { c with frames := frames })

def variableRows : List (Row × Option w.Object) → Context w → List Json × Context w
  | [], c => ([], c)
  | (row, child) :: rest, c =>
    let (id, c) := childReference child c
    let (out, c) := variableRows rest c
    (.object [("name", .string row.name), ("value", .string row.value), ("type", .string row.type),
      ("variablesReference", integer id)] :: out, c)

def variablesOf : Work w := fun hera req c => do
  let args ← req.valueJson "arguments" (.object [])
  let id ← valueInt w args "variablesReference"
  match referenced id c with
  | none => return (← response req false (.object []) "no such variables reference", c)
  -- the object's rows are hera's, whose environment it is
  | some _ =>
    let (rows, c) := variableRows hera.rows c
    return (← response req true (.object [("variables", .array rows)]) "", c)

def inspectVariables : Work w := fun hera req c => do
  let (rows, c) := variableRows hera.rows c
  return (← response req true (.object [("variables", .array rows)]) "", c)

def evaluate : Work w := fun hera req c => do
  let args ← req.valueJson "arguments" (.object [])
  -- the frame, whose environment hera evaluates in
  let _ ← valueInt w args "frameId"
  let _ ← args.valueString "expression" ""
  let result := hera.result.string?.getD (String.ofList (Json.dump hera.result))
  let (id, c) := childReference hera.child c
  return (← response req true (.object [("result", .string result),
    ("variablesReference", integer id)]) "", c)

def works : List (String × Work w) :=
  [("stackTrace", stackTrace), ("variables", variablesOf), ("evaluate", evaluate),
    ("inspectVariables", inspectVariables)]

/-! ## Both threads -/

variable (w)

/-- A job for R's thread, and how often R had stopped when it was asked for. -/
structure Job where
  id : Nat
  request : Request
  work : Work w
  askedIn : Nat

/-- Where the control thread is, with its request. -/
inductive Control where
  | idle
  /-- Before the lock of a disconnect. -/
  | disconnecting (id : Nat) (request : Request)
  /-- In `result.wait_for`. -/
  | waiting (id : Nat) (request : Request)
  /-- Its minute is over. -/
  | late (id : Nat) (request : Request)

/-- Where R's thread is. -/
inductive RThread where
  | running
  /-- In `stopped()`, at `m_wake`. -/
  | waiting
  | working (job : Job w)
  /-- Before its look at `interruptRequested()`. -/
  | looking
  /-- Before its look at `m_started`. -/
  | checking
  /-- Before the lock under which it leaves with a command of its own. -/
  | leaving (resume : String)
  | sweeping (resume : String)
  | clearing (resume : String)
  /-- An exception has left `stopped()`. -/
  | thrown

/-- A `continue` or a step that was answered with success: the stop, and R's command. -/
structure Accepted where
  stop : Nat
  input : String
deriving DecidableEq

/-- A job that was done: how often R had stopped when it was asked for, and when it was done. -/
structure Ran where
  id : Nat
  askedIn : Nat
  ranIn : Nat
deriving DecidableEq

structure State where
  client : Client := {}
  context : Context w := {}
  /-- `m_stopped` -/
  stopped : Bool := false
  /-- `m_resume` -/
  resume : String := ""
  lastResume : String := "c"
  pauseRequested : Bool := false
  pausing : Bool := false
  calledFrom : Bool := false
  jobs : List (Job w) := []
  promises : List (Nat × Json) := []
  interruptRequested : Bool := false
  control : Control := .idle
  rThread : RThread w := .running
  /-- The jobs in which R stopped again, and the stops they are of. -/
  within : List (Job w × Nat) := []
  /-- How often R has stopped, and the stop it is in. -/
  stops : Nat := 0
  stop : Nat := 0
  requests : List Request := []
  responses : List (Nat × Json) := []
  accepted : List Accepted := []
  /-- What R's browser was given, for each stop. -/
  given : List (Nat × String) := []
  ran : List Ran := []

variable {w}

/-! ## The control thread -/

def State.respond (id : Nat) (reply : Json) (s : State w) : State w :=
  { s with responses := s.responses ++ [(id, reply)], control := .idle }

def onRThread (id : Nat) (r : Request) (work : Work w) (s : State w) : Except Error (State w) := do
  if !s.stopped then
    let reply ← response r.content false (.object [])
      "R is running: only answered when it is stopped"
    return s.respond id reply
  return { s with jobs := s.jobs ++ [⟨id, r, work, s.stops⟩], control := .waiting id r }

/-- R's command for a request that lets it go on. -/
def resumeInputs : List (String × String) :=
  [("continue", "c"), ("next", "n"), ("stepIn", "s"), ("stepOut", "f")]

/-- The lock of a `continue` or of a step. -/
def resumeWith (id : Nat) (r : Request) (input : String) (s : State w) :
    Except Error (State w) := do
  if !s.stopped then
    let reply ← response r.content false (.object []) "not stopped"
    return s.respond id reply
  let reply ← response r.content true
    (.object (if r.command = "continue" then [("allThreadsContinued", .bool true)] else [])) ""
  return { s with
    resume := input, accepted := s.accepted ++ [Accepted.mk s.stop input] }.respond id reply

def pause (id : Nat) (r : Request) (s : State w) : Except Error (State w) := do
  let reply ← response r.content true (.object []) ""
  return { s with pauseRequested := s.pauseRequested || !s.stopped }.respond id reply

/-- `RDebugger::request`, up to where it waits. -/
def request (id : Nat) (r : Request) (s : State w) : Except Error (State w) := do
  let command ← r.content.valueString "command" ""
  let args ← r.content.valueJson "arguments" (.object [])
  match (handlers w).lookup command, resumeInputs.lookup command, works.lookup command with
  | some handler, _, _ =>
    let (reply, client) ← handler s.stopped r.content args s.client
    return { s with client := client }.respond id reply
  | none, some input, _ => resumeWith id r input s
  | none, none, some work => onRThread id r work s
  | none, none, none =>
    if command = "disconnect" || command = "terminate" then
      return { s with
        client := { s.client with started := false, breakpoints := [], breakpointsChanged := true }
        control := .disconnecting id r }
    else if command = "pause" then
      pause id r s
    else
      let reply ← response r.content false (.object []) ("not supported: " ++ command)
      return s.respond id reply

def State.ask (r : Request) (s : State w) : State w := { s with requests := s.requests ++ [r] }

/-- An exception is the caller's, which logs it. -/
def handleRequest (r : Request) (s : State w) : State w :=
  match request s.requests.length r (s.ask r) with
  | .ok s => s
  | .error _ => s.ask r

/-! ## R's thread -/

/-- `stopped()`, up to its loop. -/
def enter (s : State w) : State w :=
  let reason := if s.pausing then "pause" else if s.lastResume = "c" then "breakpoint" else "step"
  { s with
    calledFrom := false, stopped := true, resume := "", pausing := false
    client := s.client.event "stopped" (.object [("reason", .string reason),
      ("threadId", integer 1), ("allThreadsStopped", .bool true)])
    rThread := .waiting, stops := s.stops + 1, stop := s.stops + 1 }

/-- A browser prompt: at the call of `browser()` itself R goes one step on, unseen. -/
def browse (s : State w) : State w :=
  if s.calledFrom && !s.pausing then { s with calledFrom := false, lastResume := "c" }
  else
    match s.rThread with
    -- a job's code has stopped: the loop runs once more, inside the job
    | .working job => { enter s with within := (job, s.stop) :: s.within }
    | _ => enter s

/-- The loop's lock: the first job, or the command that was accepted. -/
def wake (s : State w) : State w :=
  match s.jobs with
  -- jobs come before the command
  | job :: jobs => { s with jobs := jobs, rThread := .working job }
  | [] =>
    if s.resume ≠ "" then { s with stopped := false, resume := "", rThread := .sweeping s.resume }
    else { s with rThread := .looking }

/-- `job.second->set_value(job.first())` -/
def runJob (hera : Hera w) (job : Job w) (s : State w) : State w :=
  match job.work hera job.request.content s.context with
  | .ok (reply, context) =>
    { s with
      context := context, promises := s.promises ++ [(job.id, reply)], rThread := .waiting
      ran := s.ran ++ [⟨job.id, job.askedIn, s.stops⟩] }
  | .error _ => { s with rThread := .thrown }

def sweep (resume : String) (s : State w) : State w :=
  { s with
    promises := s.promises ++ s.jobs.map fun job => (job.id, unanswerable)
    jobs := [], lastResume := resume, rThread := .clearing resume }

/-- The end of `stopped()`: R is given its command. -/
def resumed (resume : String) (s : State w) : State w :=
  let s := { s with
    context := clearReferences s.context
    client := s.client.event "continued" (.object [("threadId", integer 1),
      ("allThreadsContinued", .bool true)])
    given := s.given ++ [(s.stop, resume)] }
  match s.within with
  | [] => { s with rThread := .running }
  -- the job goes on, in the stop around it
  | (job, stop) :: within => { s with rThread := .working job, stop := stop, within := within }

variable (w) in
inductive Event where
  /-- The control thread begins a request. -/
  | request (r : Request)
  | disconnected
  | receive
  | timeout
  | giveUp
  /-- What R does outside of `stopped()`. -/
  | calledFrom
  | location (path : String) (line : Int)
  | takePauseRequest
  | browse
  /-- R's thread in `stopped()`. -/
  | wake
  | run (hera : Hera w)
  | look
  | check
  | leave
  | sweep
  | resumed
  /-- `m_interruptRequested` is set, or taken back. -/
  | interrupt (value : Bool)

/-- Whether R's own code runs: a cell's, or a job's. -/
def RThread.inCode : RThread w → Bool
  | .running | .working _ => true
  | _ => false

def step (s : State w) : Event w → State w
  | .request r =>
    match s.control with
    | .idle => handleRequest r s
    | _ => s
  | .disconnected =>
    match s.control with
    | .disconnecting id r =>
      -- a command that is pending is overwritten
      let s := if s.stopped then { s with resume := "c" } else s
      match response r.content true (.object []) "" with
      | .ok reply => s.respond id reply
      | .error _ => { s with control := .idle }
    | _ => s
  | .receive =>
    match s.control with
    | .waiting id _ =>
      match s.promises.lookup id with
      | some reply => s.respond id reply
      | none => s
    | _ => s
  | .timeout =>
    match s.control with
    -- a promise that is kept by now is taken
    | .waiting id r => if (s.promises.lookup id).isSome then s else { s with control := .late id r }
    | _ => s
  | .giveUp =>
    match s.control with
    | .late id r =>
      -- the job is taken back, if R's thread has not begun it
      let s := { s with jobs := s.jobs.filter (·.id ≠ id) }
      match response r.content false (.object []) "R did not answer" with
      | .ok reply => s.respond id reply
      | .error _ => { s with control := .idle }
    | _ => s
  | .calledFrom => if s.rThread.inCode then { s with calledFrom := true } else s
  | .location path line =>
    if s.rThread.inCode then
      { s with context := { s.context with locationPath := path, locationLine := line } }
    else s
  | .takePauseRequest =>
    if s.rThread.inCode then
      { s with pauseRequested := false, pausing := s.pausing || s.pauseRequested }
    else s
  -- without a client the browser is R's own
  | .browse => if s.rThread.inCode && s.client.started then browse s else s
  | .wake =>
    match s.rThread with
    | .waiting => wake s
    | _ => s
  | .run hera =>
    match s.rThread with
    | .working job => runJob hera job s
    | _ => s
  | .look =>
    match s.rThread with
    | .looking => { s with rThread := if s.interruptRequested then .leaving "Q" else .checking }
    | _ => s
  | .check =>
    match s.rThread with
    | .checking => { s with rThread := if s.client.started then .waiting else .leaving "c" }
    | _ => s
  | .leave =>
    match s.rThread with
    -- it does not look at what has been queued or accepted since
    | .leaving resume => { s with stopped := false, rThread := .sweeping resume }
    | _ => s
  | .sweep =>
    match s.rThread with
    | .sweeping resume => sweep resume s
    | _ => s
  | .resumed =>
    match s.rThread with
    | .clearing resume => resumed resume s
    | _ => s
  | .interrupt value => { s with interruptRequested := value }

attribute [grind =] handleRequest enter browse wake runJob sweep resumed step

variable (w) in
def system : Transition.System (State w) (Event w) :=
  .ofFn {} step

end Jovian.Debugger
