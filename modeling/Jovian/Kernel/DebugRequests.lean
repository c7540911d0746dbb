import Jovian.Kernel.Debugger
import Jovian.Lib.Log

/-!
# Jovian — who answers a debug request, and what R is given

R's thread leaves a stop in three ways. With a command that was accepted, it takes the command and
closes the stop under one lock, and nothing can come in between. With an interrupt or without a
client, it has looked at a flag before: a job queued since is swept away with a response that is
nobody's, and a command accepted since is forgotten. A command is forgotten as well when another
one is accepted before R's thread has woken up.

* **`requests_answered_once`** — requests are answered once, under their own names, and what is
  accepted is what R's browser is given (`Sound`), where nobody comes in between (`orderly`).
* `Asked` — the part about requests: what the control thread waits for is its own.
* `Stopping` — the part about stops: a command is pending until R is given it.
-/

namespace Jovian.Debugger

open Json (Error)

variable {w : World}

/-! ## What a request can be read as -/

def isInt (key : String) (args : Json) : Bool :=
  ((args.get? key).map fun v => (number? v).isSome).getD true

def isString (key : String) (args : Json) : Bool :=
  ((args.get? key).map fun v => v.string?.isSome).getD true

def isPath (args : Json) : Bool :=
  ((args.get? "source").map fun source => source.isObject && isString "path" source).getD true

def areLines (args : Json) : Bool :=
  (elements ((args.get? "breakpoints").getD (.array []))).all fun b => b.isObject && isInt "line" b

/-- What is read of a command's arguments, and has to be of its type. -/
def readings : List (String × (Json → Bool)) :=
  [("dumpCell", isString "code"), ("setBreakpoints", fun args => isPath args && areLines args),
    ("scopes", isInt "frameId"), ("source", isPath), ("variables", isInt "variablesReference"),
    ("evaluate", fun args => isInt "frameId" args && isString "expression" args)]

def readable (r : Request) : Bool :=
  ((readings.lookup r.command).map fun reading => reading (.object r.arguments)).getD true

/-- Whether it is work for R's thread, whose arguments are read there. -/
def needsR (r : Request) : Bool :=
  ["stackTrace", "variables", "evaluate", "inspectVariables"].contains r.command

/-! ## The property -/

/-- The request the control thread is at. -/
def Control.request : Control → Option (Nat × Request)
  | .idle => none
  | .disconnecting id r | .waiting id r | .late id r => some (id, r)

def Control.waitsFor (id : Nat) : Control → Bool
  | .waiting n _ => n = id
  | _ => false

/-- Whether R's thread is in `stopped()`, up to where it has its command. -/
def RThread.inStop : RThread w → Bool
  | .waiting | .working _ | .looking | .checking | .leaving _ => true
  | _ => false

def Event.ofControl : Event w → Bool
  | .disconnected | .receive | .timeout | .giveUp => true
  | _ => false

def Event.ofR : Event w → Bool
  | .wake | .run _ | .look | .check | .leave | .sweep | .resumed => true
  | _ => false

/-- **Debugger requests are answered once.** -/
structure Sound (s : State w) : Prop where
  /-- Each request that the control thread is done with has one response, its own. -/
  once : s.responses.map (·.1) ++ s.control.request.toList.map (·.1) = List.range s.requests.length
  own : ∀ p ∈ s.responses, ∃ r, s.requests[p.1]? = some r ∧ Answers r p.2
  /-- It is done without R's thread. -/
  done : ∃ es : List (Event w), (∀ e ∈ es, e.ofControl = true) ∧
    (es.foldl step s).control.request = none
  /-- No exception has left `stopped()`. -/
  caught : s.rThread ≠ .thrown
  /-- Work is done in the stop it was asked for in, and none is left for when R goes on. -/
  work : ∀ ran ∈ s.ran, ran.ranIn = ran.askedIn
  cleared : s.rThread = .running → s.jobs = [] ∧ s.context.references = []
  /-- A command that was accepted is given in its stop, and no other one: until then it waits. -/
  resumed : ∀ a ∈ s.accepted, (a.stop, a.input) ∈ s.given ∨
    a.stop = s.stop ∧ (s.rThread.inStop = true ∧ s.resume = a.input ∨
      s.rThread = .sweeping a.input ∨ s.rThread = .clearing a.input)
  one : (s.accepted.map (·.stop)).Nodup ∧ (s.given.map (·.1)).Nodup
  /-- R's thread gives it, from where it waits. -/
  gives : ∀ a ∈ s.accepted, s.rThread = .waiting → a.stop = s.stop →
    ∃ es : List (Event w), (∀ e ∈ es, e.ofR = true) ∧
      (a.stop, a.input) ∈ (es.foldl step s).given

/-- What was accepted for the stop R is in. -/
def State.pending (s : State w) : List String :=
  (s.accepted.filter (·.stop = s.stop)).map (·.input)

/-- Nobody comes in between: what is read is of its type, R's code for a job stops nowhere, and
what is queued or accepted is not left behind. -/
def orderly (s : State w) : Event w → Bool
  | .request r =>
    (readable r || (needsR r && !s.stopped)) &&
      (!(resumeInputs.lookup r.command).isSome || !s.stopped || s.pending.isEmpty)
  | .disconnected => !s.stopped || s.pending.all (· = "c")
  | .browse =>
    match s.rThread with
    | .working _ => !s.client.started || (s.calledFrom && !s.pausing)
    | _ => true
  | .leave =>
    match s.rThread with
    | .leaving resume => s.pending.all (· = resume)
    | _ => true
  | .sweep => s.jobs.all fun job => !s.control.waitsFor job.id
  | _ => true

attribute [grind =] orderly

/-! ## What is answered -/

/-- What is answered to a request that is well formed. -/
def Request.reply (r : Request) (success : Bool) (body : Json) (message : String) : Json :=
  .object ([("type", .string "response"), ("seq", .number "0"),
    ("request_seq", .number (toString r.seq)), ("success", .bool success),
    ("command", .string r.command), ("body", body)] ++
    if message = "" then [] else [("message", .string message)])

theorem response_content (r : Request) (success : Bool) (body : Json) (message : String) :
    response r.content success body message = .ok (r.reply success body message) := rfl

theorem answers_reply (r : Request) (success : Bool) (body : Json) (message : String) :
    Answers r (r.reply success body message) := by
  refine ⟨?_, ?_, ?_⟩ <;> rfl

theorem valueJson_arguments (r : Request) :
    r.content.valueJson "arguments" (.object []) = .ok (.object r.arguments) := rfl

/-- A handler answers a request that it can read. -/
def Answering (h : Handler) (r : Request) : Prop :=
  ∀ stopped c, ∃ j c', h stopped r.content (.object r.arguments) c = .ok (j, c') ∧ Answers r j

/-- Work answers a request that it can read, whatever hera returns. -/
def Working (work : Work w) (r : Request) : Prop :=
  ∀ hera c, ∃ j c', work hera r.content c = .ok (j, c') ∧ Answers r j

section Readings

variable {j : Json} {key : String}

theorem valueInt_of_isInt (hj : j.isObject = true) (h : isInt key j = true) :
    ∃ n, valueInt w j key = .ok n := by
  have hvalue : ∃ n, j.value key "0" number? = .ok n := by
    refine Json.value_ok_iff.mpr ⟨hj, fun v hv => ?_⟩
    rw [isInt, hv] at h
    exact h
  obtain ⟨n, hn⟩ := hvalue
  exact ⟨w.int n, by rw [valueInt, hn]; rfl⟩

theorem valueString_of_isString (hj : j.isObject = true) (h : isString key j = true) :
    ∃ s, j.valueString key "" = .ok s := by
  refine Json.value_ok_iff.mpr ⟨hj, fun v hv => ?_⟩
  rw [isString, hv] at h
  exact h

theorem sourcePath_of_isPath (hj : j.isObject = true) (h : isPath j = true) :
    ∃ path, sourcePath j = .ok path := by
  rw [sourcePath, Json.valueJson_eq "source" hj, ok_bind]
  cases hsource : j.get? "source" with
  | none => exact ⟨"", rfl⟩
  | some source =>
    rw [isPath, hsource] at h
    obtain ⟨hobject, hpath⟩ := Bool.and_eq_true_iff.mp h
    exact valueString_of_isString hobject hpath

theorem mapM_ok {α β : Type} {f : α → Except Error β} {as : List α}
    (h : ∀ a ∈ as, ∃ b, f a = .ok b) : ∃ bs, as.mapM f = .ok bs := by
  induction as with
  | nil => exact ⟨[], rfl⟩
  | cons a as ih =>
    obtain ⟨b, hb⟩ := h a List.mem_cons_self
    obtain ⟨bs, hbs⟩ := ih fun a ha => h a (List.mem_cons_of_mem _ ha)
    exact ⟨b :: bs, by rw [List.mapM_cons, hb, hbs]; rfl⟩

end Readings

section Handlers

variable {r : Request}

theorem answering_success (body : Json) : Answering (success body) r :=
  fun _ c => ⟨_, c, rfl, answers_reply r true body ""⟩

theorem answering_attach : Answering attach r :=
  fun _ _ => ⟨_, _, rfl, answers_reply r true (.object []) ""⟩

theorem answering_debugInfo : Answering (debugInfo w) r :=
  fun _ c => ⟨_, c, rfl, answers_reply r true _ ""⟩

theorem answering_dumpCell (h : isString "code" (.object r.arguments) = true) :
    Answering (dumpCell w) r := by
  intro stopped c
  obtain ⟨code, hcode⟩ := valueString_of_isString rfl h
  rw [dumpCell, hcode, ok_bind]
  exact ⟨_, c, rfl, answers_reply r true _ ""⟩

theorem answering_setBreakpoints (hpath : isPath (.object r.arguments) = true)
    (hlines : areLines (.object r.arguments) = true) : Answering (setBreakpoints w) r := by
  intro stopped c
  obtain ⟨path, hpath⟩ := sourcePath_of_isPath rfl hpath
  obtain ⟨lines, hlines⟩ := mapM_ok (f := fun b => valueInt w b "line") fun b hb => by
    obtain ⟨hobject, hline⟩ := Bool.and_eq_true_iff.mp (List.all_eq_true.mp hlines b hb)
    exact valueInt_of_isInt hobject hline
  rw [setBreakpoints, hpath, ok_bind, Json.valueJson_eq "breakpoints" rfl, ok_bind, hlines, ok_bind]
  exact ⟨_, _, rfl, answers_reply r true _ ""⟩

theorem answering_scopes (h : isInt "frameId" (.object r.arguments) = true) :
    Answering (scopes w) r := by
  intro stopped c
  obtain ⟨frame, hframe⟩ := valueInt_of_isInt (w := w) rfl h
  rw [scopes, hframe, ok_bind]
  exact ⟨_, c, rfl, answers_reply r true _ ""⟩

theorem answering_source (h : isPath (.object r.arguments) = true) : Answering (source w) r := by
  intro stopped c
  obtain ⟨path, hpath⟩ := sourcePath_of_isPath rfl h
  rw [source, hpath, ok_bind]
  cases w.source path with
  | none => exact ⟨_, c, rfl, answers_reply r false _ _⟩
  | some text => exact ⟨_, c, rfl, answers_reply r true _ ""⟩

theorem working_stackTrace : Working (w := w) stackTrace r :=
  fun _ _ => ⟨_, _, rfl, answers_reply r true _ ""⟩

theorem working_inspectVariables : Working (w := w) inspectVariables r :=
  fun _ _ => ⟨_, _, rfl, answers_reply r true _ ""⟩

theorem working_variablesOf (h : isInt "variablesReference" (.object r.arguments) = true) :
    Working (w := w) variablesOf r := by
  intro hera c
  obtain ⟨id, hid⟩ := valueInt_of_isInt (w := w) rfl h
  rw [variablesOf, valueJson_arguments, ok_bind, hid, ok_bind]
  cases referenced id c with
  | none => exact ⟨_, c, rfl, answers_reply r false _ _⟩
  | some object => exact ⟨_, _, rfl, answers_reply r true _ ""⟩

theorem working_evaluate (hframe : isInt "frameId" (.object r.arguments) = true)
    (hexpression : isString "expression" (.object r.arguments) = true) :
    Working (w := w) evaluate r := by
  intro hera c
  obtain ⟨frame, hframe⟩ := valueInt_of_isInt (w := w) rfl hframe
  obtain ⟨expression, hexpression⟩ := valueString_of_isString rfl hexpression
  rw [evaluate, valueJson_arguments, ok_bind, hframe, ok_bind, hexpression, ok_bind]
  exact ⟨_, _, rfl, answers_reply r true _ ""⟩

end Handlers

theorem mem_of_lookup {κ α : Type} [BEq κ] [LawfulBEq κ] {key : κ} {a : α}
    {entries : List (κ × α)} (h : entries.lookup key = some a) : (key, a) ∈ entries := by
  obtain ⟨before, after, hentries, -⟩ := List.lookup_eq_some_iff.mp h
  rw [hentries]
  exact List.mem_append_right _ List.mem_cons_self

theorem readable_of {r : Request} {command : String} {reading : Json → Bool}
    (hcommand : command = r.command) (hreading : readings.lookup command = some reading)
    (h : readable r = true) : reading (.object r.arguments) = true := by
  rw [readable, ← hcommand, hreading] at h
  exact h

theorem answering_of_lookup {r : Request} {handler : Handler} (hr : readable r = true)
    (h : (handlers w).lookup r.command = some handler) : Answering handler r := by
  have hmem := mem_of_lookup h
  simp only [handlers, List.mem_cons, Prod.mk.injEq, List.not_mem_nil, or_false] at hmem
  obtain ⟨-, rfl⟩ | ⟨-, rfl⟩ | ⟨-, rfl⟩ | ⟨-, rfl⟩ | ⟨-, rfl⟩ | ⟨hcommand, rfl⟩ |
    ⟨hcommand, rfl⟩ | ⟨-, rfl⟩ | ⟨hcommand, rfl⟩ | ⟨hcommand, rfl⟩ := hmem
  · exact answering_success _
  · exact answering_attach
  · exact answering_attach
  · exact answering_success _
  · exact answering_debugInfo
  · exact answering_dumpCell (readable_of hcommand.symm rfl hr)
  · obtain ⟨hpath, hlines⟩ := Bool.and_eq_true_iff.mp (readable_of hcommand.symm rfl hr)
    exact answering_setBreakpoints hpath hlines
  · exact answering_success _
  · exact answering_scopes (readable_of hcommand.symm rfl hr)
  · exact answering_source (readable_of hcommand.symm rfl hr)

theorem working_of_lookup {r : Request} {work : Work w} (hr : readable r = true)
    (h : works.lookup r.command = some work) : Working work r := by
  have hmem := mem_of_lookup h
  simp only [works, List.mem_cons, Prod.mk.injEq, List.not_mem_nil, or_false] at hmem
  obtain ⟨-, rfl⟩ | ⟨hcommand, rfl⟩ | ⟨hcommand, rfl⟩ | ⟨-, rfl⟩ := hmem
  · exact working_stackTrace
  · exact working_variablesOf (readable_of hcommand.symm rfl hr)
  · obtain ⟨hframe, hexpression⟩ := Bool.and_eq_true_iff.mp (readable_of hcommand.symm rfl hr)
    exact working_evaluate hframe hexpression
  · exact working_inspectVariables

/-- What needs R is no handler's. -/
theorem not_handler_of_needsR {r : Request} (h : needsR r = true) :
    (handlers w).lookup r.command = none := by
  simp only [needsR, List.contains_cons, List.contains_nil, Bool.or_false, Bool.or_eq_true,
    beq_iff_eq] at h
  obtain h | h | h | h := h <;> (rw [h]; rfl)

theorem command_of_resume {r : Request} {input : String}
    (h : resumeInputs.lookup r.command = some input) : input ≠ "" := by
  have hall : ∀ entry ∈ resumeInputs, entry.2 ≠ "" := by decide
  exact hall _ (mem_of_lookup h)

section Locks

variable (id : Nat) (r : Request) {s : State w}

theorem resumeWith_refused (input : String) (h : s.stopped = false) :
    ∃ j, Answers r j ∧ resumeWith id r input s = .ok (s.respond id j) := by
  refine ⟨_, answers_reply r false (.object []) "not stopped", ?_⟩
  rw [resumeWith, h]
  rfl

theorem resumeWith_accepted (input : String) (h : s.stopped = true) :
    ∃ j, Answers r j ∧ resumeWith id r input s = .ok ({ s with
      resume := input, accepted := s.accepted ++ [Accepted.mk s.stop input] }.respond id j) := by
  rw [resumeWith, h]
  exact ⟨_, answers_reply r true _ "", rfl⟩

theorem onRThread_refused (work : Work w) (h : s.stopped = false) :
    ∃ j, Answers r j ∧ onRThread id r work s = .ok (s.respond id j) := by
  refine ⟨_, answers_reply r false (.object []) "R is running: only answered when it is stopped", ?_⟩
  rw [onRThread, h]
  rfl

theorem onRThread_queued (work : Work w) (h : s.stopped = true) :
    onRThread id r work s = .ok { s with
      jobs := s.jobs ++ [⟨id, r, work, s.stops⟩], control := .waiting id r } := by
  rw [onRThread, h]
  rfl

end Locks

/-- **What a request does** whose arguments are as they should be, or are not read. -/
theorem request_cases (id : Nat) {r : Request} {s : State w}
    (h : (readable r || (needsR r && !s.stopped)) = true) :
    (∃ j client pauseRequested, Answers r j ∧ request id r s =
      .ok ({ s with client := client, pauseRequested := pauseRequested }.respond id j)) ∨
    (∃ j input, Answers r j ∧ s.stopped = true ∧ resumeInputs.lookup r.command = some input ∧
      request id r s = .ok ({ s with
        resume := input, accepted := s.accepted ++ [Accepted.mk s.stop input] }.respond id j)) ∨
    (∃ work, Working work r ∧ s.stopped = true ∧ request id r s = .ok { s with
      jobs := s.jobs ++ [⟨id, r, work, s.stops⟩], control := .waiting id r }) ∨
    ∃ client, request id r s = .ok { s with
      client := client, control := .disconnecting id r } := by
  have hcommand : r.content.valueString "command" "" = .ok r.command := rfl
  have harguments : r.content.valueJson "arguments" (.object []) = .ok (.object r.arguments) := rfl
  rw [request, hcommand, ok_bind, harguments, ok_bind]
  cases hhandler : (handlers w).lookup r.command with
  | some handler =>
    -- what needs R is no handler's, so its arguments are read here
    have hr : readable r = true := by
      rcases Bool.or_eq_true_iff.mp h with hr | hr
      · exact hr
      · rw [not_handler_of_needsR (Bool.and_eq_true_iff.mp hr).1] at hhandler
        cases hhandler
    obtain ⟨j, client, hj, hanswers⟩ := answering_of_lookup hr hhandler s.stopped s.client
    refine .inl ⟨j, client, s.pauseRequested, hanswers, ?_⟩
    dsimp only
    rw [hj]
    rfl
  | none =>
    cases hresume : resumeInputs.lookup r.command with
    | some input =>
      rcases Bool.eq_false_or_eq_true s.stopped with hstopped | hstopped
      · obtain ⟨j, hanswers, hj⟩ := resumeWith_accepted id r input hstopped
        exact .inr (.inl ⟨j, input, hanswers, hstopped, rfl, hj⟩)
      · obtain ⟨j, hanswers, hj⟩ := resumeWith_refused id r input hstopped
        exact .inl ⟨j, s.client, s.pauseRequested, hanswers, hj⟩
    | none =>
      cases hwork : works.lookup r.command with
      | some work =>
        rcases Bool.eq_false_or_eq_true s.stopped with hstopped | hstopped
        · -- R's thread reads its arguments later
          have hr : readable r = true := by simpa [hstopped] using h
          exact .inr (.inr (.inl
            ⟨work, working_of_lookup hr hwork, hstopped, onRThread_queued id r work hstopped⟩))
        · obtain ⟨j, hanswers, hj⟩ := onRThread_refused id r work hstopped
          exact .inl ⟨j, s.client, s.pauseRequested, hanswers, hj⟩
      | none =>
        dsimp only
        split
        · exact .inr (.inr (.inr ⟨_, rfl⟩))
        · split
          · exact .inl ⟨_, s.client, _, answers_reply r true _ "", rfl⟩
          · exact .inl ⟨_, s.client, s.pauseRequested, answers_reply r false _ _, rfl⟩

/-! ## Requests and their responses -/

/-- A job is a request's that was asked for in this stop, and its work answers it. -/
structure Proper (s : State w) (job : Job w) : Prop where
  asked : s.requests[job.id]? = some job.request
  working : Working job.work job.request
  current : job.askedIn = s.stops

structure Asked (s : State w) : Prop where
  once : s.responses.map (·.1) ++ s.control.request.toList.map (·.1) = List.range s.requests.length
  own : ∀ p ∈ s.responses, ∃ r, s.requests[p.1]? = some r ∧ Answers r p.2
  current : ∀ id r, s.control.request = some (id, r) → s.requests[id]? = some r
  promised : ∀ p ∈ s.promises, p.1 < s.requests.length ∧
    (s.control.waitsFor p.1 = true → ∃ r, s.requests[p.1]? = some r ∧ Answers r p.2)
  jobs : ∀ job ∈ s.jobs, Proper s job
  working : ∀ job, s.rThread = .working job → Proper s job

theorem Proper.congr {s s' : State w} {job : Job w} (h : Proper s job)
    (hrequests : s'.requests = s.requests) (hstops : s'.stops = s.stops) : Proper s' job :=
  ⟨hrequests ▸ h.asked, h.working, hstops ▸ h.current⟩

/-- What R's thread does to what nobody asked for. -/
theorem Asked.congr {s s' : State w} (h : Asked s) (hrequests : s'.requests = s.requests)
    (hresponses : s'.responses = s.responses) (hcontrol : s'.control = s.control)
    (hpromises : s'.promises = s.promises) (hjobs : ∀ job ∈ s'.jobs, Proper s' job)
    (hworking : ∀ job, s'.rThread = .working job → Proper s' job) : Asked s' where
  once := by rw [hresponses, hcontrol, hrequests]; exact h.once
  own := by rw [hresponses, hrequests]; exact h.own
  current := by rw [hcontrol, hrequests]; exact h.current
  promised := by rw [hpromises, hcontrol, hrequests]; exact h.promised
  jobs := hjobs
  working := hworking

/-- The control thread's own steps do not touch what R's thread has. -/
theorem Asked.quiet {s s' : State w} (h : Asked s) (hrequests : s'.requests = s.requests)
    (hresponses : s'.responses = s.responses) (hcontrol : s'.control = s.control)
    (hpromises : s'.promises = s.promises) (hjobs : s'.jobs = s.jobs)
    (hthread : s'.rThread = s.rThread) (hstops : s'.stops = s.stops) : Asked s' := by
  refine h.congr hrequests hresponses hcontrol hpromises ?_ ?_
  · rw [hjobs]
    exact fun job hjob => (h.jobs job hjob).congr hrequests hstops
  · rw [hthread]
    exact fun job hjob => (h.working job hjob).congr hrequests hstops

/-- A request begins. -/
theorem Asked.ask {s : State w} (h : Asked s) (hidle : s.control = .idle) (r : Request)
    {control : Control} (hcontrol : control.request = some (s.requests.length, r)) :
    Asked { s with requests := s.requests ++ [r], control := control } := by
  have hlast : (s.requests ++ [r])[s.requests.length]? = some r := by simp
  have honce := h.once
  rw [hidle] at honce
  have hproper : ∀ job, Proper s job →
      Proper { s with requests := s.requests ++ [r], control := control } job :=
    fun job hjob => ⟨Log.getElem?_old hjob.asked, hjob.working, hjob.current⟩
  refine ⟨?_, ?_, ?_, ?_, fun job hjob => hproper job (h.jobs job hjob),
    fun job hjob => hproper job (h.working job hjob)⟩
  · show s.responses.map (·.1) ++ control.request.toList.map (·.1) = _
    rw [hcontrol, List.length_append, List.length_singleton, List.range_succ, ← honce]
    simp [Control.request]
  · intro p hp
    obtain ⟨r', hr', hanswers⟩ := h.own p hp
    exact ⟨r', Log.getElem?_old hr', hanswers⟩
  · intro id r' hr'
    rw [hcontrol] at hr'
    cases hr'
    exact hlast
  · intro p hp
    have hlt := (h.promised p hp).1
    refine ⟨Nat.lt_of_lt_of_le hlt (by simp), fun hwaits => ?_⟩
    -- no promise is a new request's
    cases control with
    | waiting id r' =>
      cases hcontrol
      have hid : s.requests.length = p.1 := of_decide_eq_true hwaits
      omega
    | idle => cases hwaits
    | disconnecting id r' => cases hwaits
    | late id r' => cases hwaits

/-- It is answered. -/
theorem Asked.respond {s : State w} (h : Asked s) {id : Nat} {r : Request} {j : Json}
    (hcontrol : s.control.request = some (id, r)) (hj : Answers r j) : Asked (s.respond id j) := by
  have honce := h.once
  rw [hcontrol] at honce
  refine ⟨?_, ?_, ?_, ?_, fun job hjob => (h.jobs job hjob).congr rfl rfl,
    fun job hjob => (h.working job hjob).congr rfl rfl⟩
  · simpa [State.respond, Control.request] using honce
  · intro p hp
    rcases List.mem_append.mp hp with hp | hp
    · exact h.own p hp
    · obtain rfl := List.mem_singleton.mp hp
      exact ⟨r, h.current id r hcontrol, hj⟩
  · intro id' r' hr'
    cases hr'
  · intro p hp
    exact ⟨(h.promised p hp).1, fun hwaits => by cases hwaits⟩

/-- It waits no more. -/
theorem Asked.late {s : State w} (h : Asked s) {id : Nat} {r : Request}
    (hcontrol : s.control = .waiting id r) : Asked { s with control := .late id r } := by
  have honce := h.once
  have hcurrent := h.current
  rw [hcontrol] at honce hcurrent
  exact ⟨honce, h.own, hcurrent, fun p hp => ⟨(h.promised p hp).1, fun hwaits => by cases hwaits⟩,
    fun job hjob => (h.jobs job hjob).congr rfl rfl,
    fun job hjob => (h.working job hjob).congr rfl rfl⟩

structure Stopping (s : State w) : Prop where
  flag : s.stopped = s.rThread.inStop
  caught : s.rThread ≠ .thrown
  plain : s.within = [] ∧ s.stop = s.stops
  empty : s.rThread = .running ∨ (∃ x, s.rThread = .clearing x) → s.jobs = []
  cleared : s.rThread = .running → s.context.references = []
  ran : ∀ ran ∈ s.ran, ran.ranIn = ran.askedIn
  accepted : ∀ a ∈ s.accepted, a.input ≠ "" ∧ a.stop ≤ s.stop
  pending : s.rThread.inStop = true → ∀ a ∈ s.accepted, a.stop = s.stop → s.resume = a.input
  ending : ∀ x, s.rThread = .sweeping x ∨ s.rThread = .clearing x →
    ∀ a ∈ s.accepted, a.stop = s.stop → x = a.input
  past : ∀ a ∈ s.accepted, a.stop < s.stop ∨ s.rThread = .running → (a.stop, a.input) ∈ s.given
  given : ∀ g ∈ s.given, g.1 ≤ s.stop ∧ (s.rThread ≠ .running → g.1 < s.stop)
  one : (s.accepted.map (·.stop)).Nodup ∧ (s.given.map (·.1)).Nodup

/-- What a step leaves alone when it is not about stops. -/
def State.stopping (s : State w) :=
  (s.stopped, s.resume, s.rThread, s.within, s.stop, s.stops, s.context.references, s.ran,
    s.accepted, s.given)

theorem Stopping.quiet {s s' : State w} (h : Stopping s) (hsame : s'.stopping = s.stopping)
    (hjobs : s.jobs = [] → s'.jobs = []) : Stopping s' := by
  simp only [State.stopping, Prod.mk.injEq] at hsame
  obtain ⟨hstopped, hresume, hthread, hwithin, hstop, hstops, hreferences, hran, haccepted,
    hgiven⟩ := hsame
  refine ⟨?_, ?_, ?_, ?_, ?_, ?_, ?_, ?_, ?_, ?_, ?_, ?_⟩
  · rw [hstopped, hthread]; exact h.flag
  · rw [hthread]; exact h.caught
  · rw [hwithin, hstop, hstops]; exact h.plain
  · rw [hthread]; exact fun hempty => hjobs (h.empty hempty)
  · rw [hthread, hreferences]; exact h.cleared
  · rw [hran]; exact h.ran
  · rw [haccepted, hstop]; exact h.accepted
  · rw [hthread, haccepted, hstop, hresume]; exact h.pending
  · rw [hthread, haccepted, hstop]; exact h.ending
  · rw [hthread, haccepted, hstop, hgiven]; exact h.past
  · rw [hthread, hgiven, hstop]; exact h.given
  · rw [haccepted, hgiven]; exact h.one

/-- In a stop, R's thread is neither running nor behind it. -/
theorem Stopping.inStop {s : State w} (h : Stopping s) (hstopped : s.stopped = true) :
    s.rThread.inStop = true := h.flag.symm.trans hstopped

theorem mem_pending {s : State w} {input : String} :
    input ∈ s.pending ↔ ∃ a ∈ s.accepted, a.stop = s.stop ∧ a.input = input := by
  simp [State.pending, and_assoc]

/-- A `continue` or a step, where none is pending. -/
theorem Stopping.accept {s : State w} {input : String} (h : Stopping s) (hinput : input ≠ "")
    (hstopped : s.stopped = true) (hpending : s.pending = []) :
    Stopping { s with resume := input, accepted := s.accepted ++ [Accepted.mk s.stop input] } := by
  have hin := h.inStop hstopped
  -- nothing is pending, so nothing was accepted for this stop
  have hnone : ∀ a ∈ s.accepted, a.stop ≠ s.stop := by
    intro a ha hstop
    have hmem : a.input ∈ s.pending := mem_pending.mpr ⟨a, ha, hstop, rfl⟩
    rw [hpending] at hmem
    cases hmem
  refine ⟨h.flag, h.caught, h.plain, h.empty, h.cleared, h.ran, ?_, fun _ => ?_, ?_, ?_, h.given,
    ?_, h.one.2⟩
  · intro a ha
    rcases List.mem_append.mp ha with ha | ha
    · exact h.accepted a ha
    · rw [List.mem_singleton.mp ha]
      exact ⟨hinput, Nat.le_refl _⟩
  · intro a ha hstop
    rcases List.mem_append.mp ha with ha | ha
    · exact absurd hstop (hnone a ha)
    · rw [List.mem_singleton.mp ha]
  · intro x hx
    rcases hx with hx | hx <;> · rw [hx] at hin; cases hin
  · intro a ha hpast
    rcases List.mem_append.mp ha with ha | ha
    · exact h.past a ha hpast
    · rw [List.mem_singleton.mp ha] at hpast
      rcases hpast with hlt | hrunning
      · exact absurd hlt (Nat.lt_irrefl _)
      · rw [show s.rThread = .running from hrunning] at hin
        cases hin
  · rw [List.map_append, List.map_singleton]
    refine List.nodup_append.mpr ⟨h.one.1, by simp, ?_⟩
    intro n hn m hm
    obtain ⟨a, ha, rfl⟩ := List.mem_map.mp hn
    rw [List.mem_singleton.mp hm]
    exact hnone a ha

/-- A disconnect, where nothing else is pending. -/
theorem Stopping.disconnect {s : State w} (h : Stopping s) (hpending : ∀ x ∈ s.pending, x = "c") :
    Stopping { s with resume := "c" } := by
  refine ⟨h.flag, h.caught, h.plain, h.empty, h.cleared, h.ran, h.accepted, fun _ a ha hstop => ?_,
    h.ending, h.past, h.given, h.one⟩
  exact (hpending _ (mem_pending.mpr ⟨a, ha, hstop, rfl⟩)).symm

theorem RThread.ne_running {thread : RThread w} (h : thread.inStop = true) :
    thread ≠ .running := by
  rintro rfl
  cases h

/-- R's thread moves on in its stop. -/
theorem Stopping.move {s : State w} {thread : RThread w} (h : Stopping s)
    (hin : s.rThread.inStop = true) (hin' : thread.inStop = true) :
    Stopping { s with rThread := thread } := by
  have hrunning := RThread.ne_running hin
  refine ⟨h.flag.trans (hin.trans hin'.symm), ?_, h.plain, ?_, ?_, h.ran, h.accepted,
    fun _ => h.pending hin, ?_, ?_, fun g hg => ⟨(h.given g hg).1, fun _ => (h.given g hg).2 hrunning⟩,
    h.one⟩
  · rintro rfl
    cases hin'
  · rintro (rfl | ⟨x, rfl⟩) <;> cases hin'
  · rintro rfl
    cases hin'
  · rintro x (rfl | rfl) <;> cases hin'
  · -- what was accepted for this stop is still pending
    rintro a ha (hlt | rfl)
    · exact h.past a ha (.inl hlt)
    · cases hin'

/-- It leaves its stop with the command that is pending, if one is. -/
theorem Stopping.leave {s : State w} {resume x : String} (h : Stopping s)
    (hin : s.rThread.inStop = true) (hpending : ∀ y ∈ s.pending, y = x) :
    Stopping { s with stopped := false, resume := resume, rThread := .sweeping x } := by
  have hrunning := RThread.ne_running hin
  refine ⟨rfl, by simp, h.plain, ?_, by simp, h.ran, h.accepted, fun hin => (by cases hin), ?_, ?_,
    fun g hg => ⟨(h.given g hg).1, fun _ => (h.given g hg).2 hrunning⟩, h.one⟩
  · rintro (hthread | ⟨_, hthread⟩) <;> cases hthread
  · intro y hy a ha hstop
    rcases hy with hy | hy <;> cases hy
    exact (hpending _ (mem_pending.mpr ⟨a, ha, hstop, rfl⟩)).symm
  · rintro a ha (hlt | hthread)
    · exact h.past a ha (.inl hlt)
    · cases hthread

theorem Stopping.sweep {s : State w} {x : String} (h : Stopping s) (hthread : s.rThread = .sweeping x) :
    Stopping (sweep x s) := by
  refine ⟨?_, by simp [Debugger.sweep], h.plain, fun _ => rfl, by simp [Debugger.sweep], h.ran,
    h.accepted, fun hin => (by cases hin), ?_, ?_, ?_, h.one⟩
  · have hflag := h.flag
    rw [hthread] at hflag
    exact hflag
  · intro y hy
    rcases hy with hy | hy <;> cases hy
    exact h.ending x (.inl hthread)
  · rintro a ha (hlt | hthread)
    · exact h.past a ha (.inl hlt)
    · cases hthread
  · exact fun g hg => ⟨(h.given g hg).1, fun _ => (h.given g hg).2 (by simp [hthread])⟩

/-- R is given its command. -/
theorem Stopping.resumed {s : State w} {x : String} (h : Stopping s)
    (hthread : s.rThread = .clearing x) : Stopping (resumed x s) := by
  obtain ⟨hwithin, hstop⟩ := h.plain
  have hlt : ∀ g ∈ s.given, g.1 < s.stop := fun g hg => (h.given g hg).2 (by simp [hthread])
  have hflag := h.flag
  rw [hthread] at hflag
  have hjobs := h.empty (.inr ⟨x, hthread⟩)
  simp only [Debugger.resumed, hwithin]
  refine ⟨hflag, by simp, ⟨rfl, hstop⟩, fun _ => hjobs, fun _ => rfl, h.ran, h.accepted,
    fun hin => (by cases hin), ?_, ?_, ?_, h.one.1, ?_⟩
  · rintro y (hy | hy) <;> cases hy
  · intro a ha hpast
    rcases Nat.lt_or_eq_of_le (h.accepted a ha).2 with hlt | heq
    · exact List.mem_append_left _ (h.past a ha (.inl hlt))
    · -- it is what was accepted for this stop
      rw [h.ending x (.inr hthread) a ha heq, heq]
      exact List.mem_append_right _ (List.mem_singleton_self _)
  · intro g hg
    refine ⟨?_, fun hrunning => absurd rfl hrunning⟩
    rcases List.mem_append.mp hg with hg | hg
    · exact Nat.le_of_lt (hlt g hg)
    · rw [List.mem_singleton.mp hg]
  · rw [List.map_append, List.map_singleton]
    refine List.nodup_append.mpr ⟨h.one.2, by simp, ?_⟩
    intro n hn m hm
    obtain ⟨g, hg, rfl⟩ := List.mem_map.mp hn
    rw [List.mem_singleton.mp hm]
    exact Nat.ne_of_lt (hlt g hg)

/-- R stops. -/
theorem Stopping.enter {s : State w} (h : Stopping s) (hthread : s.rThread = .running) :
    Stopping (enter s) := by
  obtain ⟨hwithin, hstop⟩ := h.plain
  have hlt : ∀ a ∈ s.accepted, a.stop < s.stops + 1 := fun a ha =>
    Nat.lt_succ_of_le (hstop ▸ (h.accepted a ha).2)
  refine ⟨rfl, by simp [Debugger.enter], ⟨hwithin, rfl⟩, ?_, by simp [Debugger.enter], h.ran,
    fun a ha => ⟨(h.accepted a ha).1, Nat.le_of_lt (hlt a ha)⟩,
    fun _ a ha heq => absurd heq (Nat.ne_of_lt (hlt a ha)), ?_, ?_, ?_, h.one⟩
  · rintro (hrunning | ⟨x, hrunning⟩) <;> cases hrunning
  · rintro x (hx | hx) <;> cases hx
  · intro a ha _
    exact h.past a ha (.inr hthread)
  · intro g hg
    have hg := Nat.lt_succ_of_le (hstop ▸ (h.given g hg).1)
    exact ⟨Nat.le_of_lt hg, fun _ => hg⟩

/-! ## Steps -/

structure Orderly (s : State w) : Prop where
  asked : Asked s
  stopping : Stopping s

theorem Orderly.request {s : State w} (h : Orderly s) (r : Request)
    (horderly : orderly s (.request r) = true) : Orderly (step s (.request r)) := by
  rw [step]
  split
  · next hidle =>
    obtain ⟨hread, hpending⟩ := Bool.and_eq_true_iff.mp horderly
    have hask := fun control => @Asked.ask _ _ h.asked hidle r control
    rw [handleRequest]
    obtain ⟨j, client, pauseRequested, hj, hs⟩ | ⟨j, input, hj, hstopped, hinput, hs⟩ |
      ⟨work, hwork, hstopped, hs⟩ | ⟨client, hs⟩ :=
      request_cases s.requests.length (s := s.ask r) hread
    all_goals rw [hs]
    · -- it is answered at once
      have hask := hask (.disconnecting s.requests.length r) rfl
      exact ⟨(hask.respond rfl hj).quiet rfl rfl rfl rfl rfl rfl rfl, h.stopping.quiet rfl id⟩
    · -- a command is accepted
      have hnone : s.pending = [] := by simpa [hinput, show s.stopped = true from hstopped]
        using hpending
      have hask := hask (.disconnecting s.requests.length r) rfl
      exact ⟨(hask.respond rfl hj).quiet rfl rfl rfl rfl rfl rfl rfl,
        (h.stopping.accept (command_of_resume hinput) hstopped hnone).quiet rfl id⟩
    · -- a job is queued
      have hask := hask (.waiting s.requests.length r) rfl
      refine ⟨hask.congr rfl rfl rfl rfl ?_ fun job hjob => (hask.working job hjob).congr rfl rfl, ?_⟩
      · intro job hjob
        rcases List.mem_append.mp hjob with hjob | hjob
        · exact (hask.jobs job hjob).congr rfl rfl
        · obtain rfl := List.mem_singleton.mp hjob
          exact ⟨by simp [State.ask], hwork, rfl⟩
      · have hin := h.stopping.inStop hstopped
        obtain ⟨hflag, hcaught, hplain, -, hcleared, hran, haccepted, hpend, hending, hpast, hgiven,
          hone⟩ := h.stopping
        refine ⟨hflag, hcaught, hplain, ?_, hcleared, hran, haccepted, hpend, hending, hpast, hgiven,
          hone⟩
        rintro (hthread | ⟨x, hthread⟩) <;> rw [show s.rThread = _ from hthread] at hin <;> cases hin
    · exact ⟨(hask (.disconnecting s.requests.length r) rfl).quiet rfl rfl rfl rfl rfl rfl rfl,
        h.stopping.quiet rfl id⟩
  · exact h

theorem Orderly.disconnected {s : State w} (h : Orderly s)
    (horderly : orderly s .disconnected = true) : Orderly (step s .disconnected) := by
  rw [step]
  split
  · next id r hcontrol =>
    have hcontrol : s.control.request = some (id, r) := by rw [hcontrol]; rfl
    have hj := answers_reply r true (.object []) ""
    simp only [response_content]
    split
    · next hstopped =>
      have hpending : ∀ x ∈ s.pending, x = "c" := by simpa [orderly, hstopped] using horderly
      exact ⟨(h.asked.respond hcontrol hj).quiet rfl rfl rfl rfl rfl rfl rfl,
        (h.stopping.disconnect hpending).quiet rfl fun hjobs => hjobs⟩
    · exact ⟨h.asked.respond hcontrol hj, h.stopping.quiet rfl fun hjobs => hjobs⟩
  · exact h

theorem Orderly.receive {s : State w} (h : Orderly s) : Orderly (step s .receive) := by
  rw [step]
  split
  · next id r hcontrol =>
    split
    · next reply hreply =>
      -- the promise is kept to the request that waits for it
      obtain ⟨r', hr', hanswers⟩ :=
        (h.asked.promised _ (mem_of_lookup hreply)).2 (by rw [hcontrol]; exact decide_eq_true rfl)
      have hr : s.requests[id]? = some r := h.asked.current id r (by rw [hcontrol]; rfl)
      obtain rfl : r' = r := Option.some.inj (hr'.symm.trans hr)
      exact ⟨h.asked.respond (by rw [hcontrol]; rfl) hanswers, h.stopping.quiet rfl fun hjobs => hjobs⟩
    · exact h
  · exact h

theorem Orderly.timeout {s : State w} (h : Orderly s) : Orderly (step s .timeout) := by
  rw [step]
  split
  · next id r hcontrol =>
    split
    · exact h
    · exact ⟨h.asked.late hcontrol, h.stopping.quiet rfl fun hjobs => hjobs⟩
  · exact h

theorem Orderly.giveUp {s : State w} (h : Orderly s) : Orderly (step s .giveUp) := by
  rw [step]
  split
  · next id r hcontrol =>
    have hj := answers_reply r false (.object []) "R did not answer"
    have hanswered := h.asked.respond (show s.control.request = some (id, r) by rw [hcontrol]; rfl) hj
    simp only [response_content]
    refine ⟨hanswered.congr rfl rfl rfl rfl (fun job hjob => ?_) fun job hjob =>
      (hanswered.working job hjob).congr rfl rfl, h.stopping.quiet rfl fun hjobs => ?_⟩
    · -- the job may be gone, and the others are as they were
      exact (hanswered.jobs job (List.mem_filter.mp hjob).1).congr rfl rfl
    · show s.jobs.filter _ = []
      rw [hjobs]
      rfl
  · exact h

theorem Orderly.quiet {s s' : State w} (h : Orderly s) (hrequests : s'.requests = s.requests)
    (hresponses : s'.responses = s.responses) (hcontrol : s'.control = s.control)
    (hpromises : s'.promises = s.promises) (hjobs : s'.jobs = s.jobs)
    (hsame : s'.stopping = s.stopping) : Orderly s' := by
  have hstops := hsame
  simp only [State.stopping, Prod.mk.injEq] at hstops
  exact ⟨h.asked.quiet hrequests hresponses hcontrol hpromises hjobs hstops.2.2.1
    hstops.2.2.2.2.2.1, h.stopping.quiet hsame fun hnone => hjobs.trans hnone⟩

theorem Orderly.browse {s : State w} (h : Orderly s) (horderly : orderly s .browse = true) :
    Orderly (step s .browse) := by
  rw [step]
  split
  · next hcode =>
    obtain ⟨hcode, hstarted⟩ := Bool.and_eq_true_iff.mp hcode
    rw [Debugger.browse]
    split
    · exact h.quiet rfl rfl rfl rfl rfl rfl
    · next hloud =>
      cases hthread : s.rThread with
      | running =>
        refine ⟨h.asked.congr rfl rfl rfl rfl ?_ fun job hjob => (by cases hjob),
          h.stopping.enter hthread⟩
        -- no job was left for when R went on
        show ∀ job ∈ s.jobs, _
        rw [h.stopping.empty (.inl hthread)]
        simp
      | working job => simp [orderly, hthread, hstarted, hloud] at horderly
      | _ => rw [hthread] at hcode; cases hcode
  · exact h

theorem Orderly.wake {s : State w} (h : Orderly s) (hthread : s.rThread = .waiting) :
    Orderly (wake s) := by
  have hin : s.rThread.inStop = true := by rw [hthread]; rfl
  rw [Debugger.wake]
  split
  · next job jobs hjobs =>
    have hproper : ∀ job' ∈ s.jobs, Proper { s with jobs := jobs, rThread := .working job } job' :=
      fun job' hjob' => (h.asked.jobs job' hjob').congr rfl rfl
    refine ⟨h.asked.congr rfl rfl rfl rfl (fun job' hjob' => ?_) (fun job' hjob' => ?_),
      (@Stopping.move _ _ (.working job) h.stopping hin rfl).quiet rfl fun hnone => ?_⟩
    · exact hproper job' (by rw [hjobs]; exact List.mem_cons_of_mem _ hjob')
    · cases hjob'
      exact hproper job (by rw [hjobs]; exact List.mem_cons_self)
    · rw [show s.jobs = [] from hnone] at hjobs
      cases hjobs
  · next hjobs =>
    split
    · -- the command that was accepted, under the lock that closes the stop
      have hpending : ∀ y ∈ s.pending, y = s.resume := by
        intro y hy
        obtain ⟨a, ha, hstop, rfl⟩ := mem_pending.mp hy
        exact (h.stopping.pending hin a ha hstop).symm
      exact ⟨h.asked.congr rfl rfl rfl rfl (fun job hjob => (h.asked.jobs job hjob).congr rfl rfl)
        fun job hjob => (by cases hjob), h.stopping.leave hin hpending⟩
    · -- nothing: it looks at the flags
      exact ⟨h.asked.congr rfl rfl rfl rfl (fun job hjob => (h.asked.jobs job hjob).congr rfl rfl)
        fun job hjob => (by cases hjob), h.stopping.move hin rfl⟩

/-- R's thread does a job: it is not for a stop before. -/
theorem Orderly.runJob {s : State w} (h : Orderly s) (hera : Hera w) {job : Job w}
    (hthread : s.rThread = .working job) : Orderly (runJob hera job s) := by
  have hin : s.rThread.inStop = true := by rw [hthread]; rfl
  have hproper := h.asked.working job hthread
  obtain ⟨reply, context, hreply, hanswers⟩ := hproper.working hera s.context
  rw [Debugger.runJob, hreply]
  have hlt := (List.getElem?_eq_some_iff.mp hproper.asked).1
  constructor
  · refine ⟨h.asked.once, h.asked.own, h.asked.current, fun p hp => ?_,
      fun job' hjob' => (h.asked.jobs job' hjob').congr rfl rfl, fun job' hjob' => (by cases hjob')⟩
    rcases List.mem_append.mp hp with hp | hp
    · exact h.asked.promised p hp
    · rw [List.mem_singleton.mp hp]
      exact ⟨hlt, fun _ => ⟨job.request, hproper.asked, hanswers⟩⟩
  · obtain ⟨hflag, hcaught, hplain, hempty, hcleared, hran, haccepted, hpending, hending, hpast,
      hgiven, hone⟩ := @Stopping.move _ _ .waiting h.stopping hin rfl
    refine ⟨hflag, hcaught, hplain, hempty, fun hrunning => (by cases hrunning), fun ran hmem => ?_,
      haccepted, hpending, hending, hpast, hgiven, hone⟩
    rcases List.mem_append.mp hmem with hmem | hmem
    · exact hran ran hmem
    · rw [List.mem_singleton.mp hmem]
      exact hproper.current.symm

theorem Orderly.move {s : State w} {thread : RThread w} (h : Orderly s)
    (hin : s.rThread.inStop = true) (hin' : thread.inStop = true)
    (hidle : ∀ job, thread ≠ .working job) : Orderly { s with rThread := thread } :=
  ⟨h.asked.congr rfl rfl rfl rfl (fun job hjob => (h.asked.jobs job hjob).congr rfl rfl)
    fun job hjob => absurd hjob (hidle job), h.stopping.move hin hin'⟩

theorem Orderly.sweep {s : State w} {x : String} (h : Orderly s) (hthread : s.rThread = .sweeping x)
    (horderly : orderly s .sweep = true) : Orderly (sweep x s) := by
  refine ⟨⟨h.asked.once, h.asked.own, h.asked.current, fun p hp => ?_, fun job hjob => (by cases hjob),
    fun job hjob => (by cases hjob)⟩, h.stopping.sweep hthread⟩
  rcases List.mem_append.mp hp with hp | hp
  · exact h.asked.promised p hp
  · -- nobody waits for what is left behind
    obtain ⟨job, hjob, rfl⟩ := List.mem_map.mp hp
    refine ⟨(List.getElem?_eq_some_iff.mp (h.asked.jobs job hjob).asked).1, fun hwaits => ?_⟩
    have hnot := List.all_eq_true.mp horderly job hjob
    rw [show s.control.waitsFor job.id = true from hwaits] at hnot
    cases hnot

theorem Orderly.step {s : State w} {e : Event w} (h : Orderly s) (horderly : orderly s e = true) :
    Orderly (step s e) := by
  cases e with
  | request r => exact h.request r horderly
  | disconnected => exact h.disconnected horderly
  | receive => exact h.receive
  | timeout => exact h.timeout
  | giveUp => exact h.giveUp
  | calledFrom =>
    rw [Debugger.step]
    split
    · exact h.quiet rfl rfl rfl rfl rfl rfl
    · exact h
  | location path line =>
    rw [Debugger.step]
    split
    · exact h.quiet rfl rfl rfl rfl rfl rfl
    · exact h
  | takePauseRequest =>
    rw [Debugger.step]
    split
    · exact h.quiet rfl rfl rfl rfl rfl rfl
    · exact h
  | browse => exact h.browse horderly
  | wake =>
    rw [Debugger.step]
    split
    · next hthread => exact h.wake hthread
    · exact h
  | run hera =>
    rw [Debugger.step]
    split
    · next job hthread => exact h.runJob hera hthread
    · exact h
  | look =>
    rw [Debugger.step]
    split
    · next hthread =>
      have hin : s.rThread.inStop = true := by rw [hthread]; rfl
      split
      · exact h.move hin rfl (by simp)
      · exact h.move hin rfl (by simp)
    · exact h
  | check =>
    rw [Debugger.step]
    split
    · next hthread =>
      have hin : s.rThread.inStop = true := by rw [hthread]; rfl
      split
      · exact h.move hin rfl (by simp)
      · exact h.move hin rfl (by simp)
    · exact h
  | leave =>
    rw [Debugger.step]
    split
    · next x hthread =>
      have hin : s.rThread.inStop = true := by rw [hthread]; rfl
      have hpending : ∀ y ∈ s.pending, y = x := by simpa [orderly, hthread] using horderly
      exact ⟨h.asked.congr rfl rfl rfl rfl (fun job hjob => (h.asked.jobs job hjob).congr rfl rfl)
        fun job hjob => (by cases hjob), h.stopping.leave hin hpending⟩
    · exact h
  | sweep =>
    rw [Debugger.step]
    split
    · next x hthread => exact h.sweep hthread horderly
    · exact h
  | resumed =>
    rw [Debugger.step]
    split
    · next x hthread =>
      have hjobs := h.stopping.empty (.inr ⟨x, hthread⟩)
      have hresumed := h.stopping.resumed hthread
      have hwithin := h.stopping.plain.1
      simp only [Debugger.resumed, hwithin] at hresumed ⊢
      refine ⟨h.asked.congr rfl rfl rfl rfl ?_ fun job hjob => (by cases hjob), hresumed⟩
      show ∀ job ∈ s.jobs, _
      rw [hjobs]
      simp
    · exact h
  | interrupt value => exact h.quiet rfl rfl rfl rfl rfl rfl

/-! ## What each thread does by itself -/

/-- A request is done in two steps of the control thread, whatever R's thread does. -/
theorem request_done (s : State w) : ∃ es : List (Event w), (∀ e ∈ es, e.ofControl = true) ∧
    (es.foldl step s).control.request = none := by
  cases hcontrol : s.control with
  | idle => exact ⟨[], by simp, by rw [List.foldl_nil, hcontrol]; rfl⟩
  | disconnecting id r =>
    refine ⟨[.disconnected], by simp [Event.ofControl], ?_⟩
    simp only [List.foldl_cons, List.foldl_nil, step, hcontrol, response_content]
    rfl
  | late id r =>
    refine ⟨[.giveUp], by simp [Event.ofControl], ?_⟩
    simp only [List.foldl_cons, List.foldl_nil, step, hcontrol, response_content]
    rfl
  | waiting id r =>
    cases hreply : s.promises.lookup id with
    | some reply =>
      refine ⟨[.receive], by simp [Event.ofControl], ?_⟩
      simp only [List.foldl_cons, List.foldl_nil, step, hcontrol, hreply]
      rfl
    | none =>
      refine ⟨[.timeout, .giveUp], by simp [Event.ofControl], ?_⟩
      simp only [List.foldl_cons, List.foldl_nil, step, hcontrol, hreply, Option.isSome_none,
        Bool.false_eq_true, if_false, response_content]
      rfl

theorem mem_given_resumed (x : String) (s : State w) : (s.stop, x) ∈ (resumed x s).given := by
  rw [resumed]
  split <;> exact List.mem_append_right _ (List.mem_singleton_self _)

/-- R's thread does what is queued, and then gives the command that is pending. -/
theorem command_given {s : State w} {x : String} (hthread : s.rThread = .waiting)
    (hjobs : ∀ job ∈ s.jobs, Working job.work job.request) (hresume : s.resume = x) (hx : x ≠ "") :
    ∃ es : List (Event w), (∀ e ∈ es, e.ofR = true) ∧
      (s.stop, x) ∈ (es.foldl step s).given := by
  induction hqueue : s.jobs generalizing s with
  | nil =>
    have hwake : step s .wake =
        { s with stopped := false, resume := "", rThread := .sweeping x } := by
      simp only [step, hthread, wake, hqueue, hresume, ne_eq, hx, not_false_eq_true, if_true]
    -- no job is left, so it leaves with the command
    refine ⟨[.wake, .sweep, .resumed], by simp [Event.ofR], ?_⟩
    rw [List.foldl_cons, hwake]
    exact mem_given_resumed x (sweep x { s with
      stopped := false, resume := "", rThread := .sweeping x })
  | cons job jobs ih =>
    obtain ⟨reply, context, hreply, -⟩ := hjobs job (by rw [hqueue]; exact List.mem_cons_self) {} s.context
    have hrun : step (step s .wake) (.run {}) = { s with
        jobs := jobs, context := context, promises := s.promises ++ [(job.id, reply)]
        rThread := .waiting, ran := s.ran ++ [⟨job.id, job.askedIn, s.stops⟩] } := by
      simp only [step, hthread, wake, hqueue, runJob, hreply]
    -- one job less, and the same command pending
    obtain ⟨es, hes, hgiven⟩ := ih (s := step (step s .wake) (.run {})) (by rw [hrun])
      (by rw [hrun]; exact fun job' hjob' => hjobs job' (by rw [hqueue]; exact List.mem_cons_of_mem _ hjob'))
      (by rw [hrun]; exact hresume) (by rw [hrun])
    refine ⟨.wake :: .run {} :: es, ?_, ?_⟩
    · intro e he
      obtain rfl | rfl | he := List.mem_cons.mp he |>.imp_right List.mem_cons.mp
      · rfl
      · rfl
      · exact hes e he
    · rw [hrun] at hgiven
      rw [List.foldl_cons, List.foldl_cons, hrun]
      exact hgiven

theorem Orderly.sound {s : State w} (h : Orderly s) : Sound s where
  once := h.asked.once
  own := h.asked.own
  done := request_done s
  caught := h.stopping.caught
  work := h.stopping.ran
  cleared hrunning := ⟨h.stopping.empty (.inl hrunning), h.stopping.cleared hrunning⟩
  resumed a ha := by
    rcases Nat.lt_or_eq_of_le (h.stopping.accepted a ha).2 with hlt | hstop
    · exact .inl (h.stopping.past a ha (.inl hlt))
    · cases hthread : s.rThread with
      | running => exact .inl (h.stopping.past a ha (.inr hthread))
      | thrown => exact absurd hthread h.stopping.caught
      | sweeping x =>
        obtain rfl := h.stopping.ending x (.inl hthread) a ha hstop
        exact .inr ⟨hstop, .inr (.inl rfl)⟩
      | clearing x =>
        obtain rfl := h.stopping.ending x (.inr hthread) a ha hstop
        exact .inr ⟨hstop, .inr (.inr rfl)⟩
      -- in the stop it waits in `resume`
      | _ => exact .inr ⟨hstop, .inl ⟨rfl, h.stopping.pending (by rw [hthread]; rfl) a ha hstop⟩⟩
  one := h.stopping.one
  gives a ha hthread hstop := by
    have hresume := h.stopping.pending (by rw [hthread]; rfl) a ha hstop
    rw [hstop]
    exact command_given hthread (fun job hjob => (h.asked.jobs job hjob).working) hresume
      (h.stopping.accepted a ha).1

/-- A session without source files. -/
def bare : World where
  Object := Unit
  global := ()
  int spelling := spelling.toInt?.getD 0
  tmpPrefix := "/tmp/elara_debug_1/"
  source _ := none

def attached : List (Event bare) := [.request ⟨1, "attach", []⟩, .browse]

/-- R's thread finds nothing to do, and an interrupt. -/
def interrupted : List (Event bare) := attached ++ [.wake, .interrupt true, .look]

def dropped : List (Event bare) :=
  interrupted ++ [.request ⟨2, "next", []⟩, .leave, .sweep, .resumed]

/-- The expression calls a function with a breakpoint. -/
def nested : List (Event bare) := attached ++ [.request ⟨2, "evaluate", []⟩, .wake, .browse,
  .timeout, .giveUp, .request ⟨3, "continue", []⟩, .wake, .sweep, .resumed, .run {}]

section Refuted

variable {s : State w}

end Refuted

end Jovian.Debugger
