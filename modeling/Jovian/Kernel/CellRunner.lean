import Jovian.Lib.Log
import Jovian.Lib.Transition

/-!
# Jovian — R's console runs a cell (`elara/r/interpreter_r.cpp`)

R's console asks for its next line, and `readConsole` answers: a cell's next expression is
evaluated there and then, and R is handed a line that shows its value. An error, or an interrupt,
jumps from wherever R is to its top level, past `readConsole`; R then asks again. What is known of
the cell by then is in the flags.

R is outside: what it does next is an event (it evaluates to a value, it jumps, it is done with its
line, it writes), and so are the interrupts, which come at any time. That R asks again at its top
prompt after each line is `Control.asks`. R's buffer is big enough for each of the few lines.

`trace` and `turns` of a cell, `begun`, `handed` and the tags of `stdout` are for the reader: no
decision reads them. The check for a plot between expressions is left out, and so are the user
expressions of the reply.
-/

namespace Jovian.CellRunner

abbrev Text := List Char

/-! ## The state -/

/-- What R is handed. -/
inductive Line where
  | install | recover | reset
  | value (visible : Bool)
deriving DecidableEq, Repr

def Line.text : Line → String
  | .install =>
    "base::invisible(base::as.environment(\"tools:jovian\")$.jv.errors.install())\n"
  | .recover => "base::invisible(base::.Last.value)\n"
  | .reset => " \n"
  | .value true => "base::.jv_last_value\n"
  | .value false => "base::invisible(base::.jv_last_value)\n"

/-- What happened with a cell. Expressions are numbered from 0. -/
inductive Step where
  | evaluated (i : Nat)
  /-- R left its evaluation, or the printing of its value, with a jump. -/
  | failed (i : Nat)
  /-- Printing its value wrote this to stdout. -/
  | printed (i : Nat) (text : Text)
  /-- An interrupt was requested. -/
  | interrupted
deriving DecidableEq, Repr

structure Cell where
  count : Nat
  silent : Bool
  next : Nat := 0
  failed : Bool := false
  errorRecorded : Bool := false
  evalue : Text := []
  traceback : List Text := []
  valueText : Text := []
  trace : List Step := []
  /-- How often R has asked since the cell began. -/
  turns : Nat := 0
deriving DecidableEq, Repr

inductive Reply where
  | error (ename evalue : Text) (traceback : List Text)
  | ok
deriving DecidableEq, Repr

def Reply.isError : Reply → Bool
  | .error .. => true
  | .ok => false

structure Finished where
  number : Nat
  count : Nat
  silent : Bool
  trace : List Step
  turns : Nat
  reply : Reply
  /-- The text of the `execute_result`. -/
  result : Option Text
deriving DecidableEq, Repr

/-- `m_pendingLine`, `m_pendingTail`, `m_pendingCapture`, and the cell it is of. -/
structure Pending where
  line : Line
  tail : Bool
  capture : Bool
  cell : Nat
deriving DecidableEq, Repr

/-- Whether a text is written by code or by R printing a value. -/
inductive Source where
  | code | value
deriving DecidableEq, Repr

abbrev Tagged := List (Source × Char)

inductive Control where
  /-- R is about to ask for a line. -/
  | asks
  /-- `readConsole` has no cell and serves requests. -/
  | polling
  /-- `readConsole` is in `Rf_eval`, with the cell's expression before `next`. -/
  | evaluating
  /-- R works on the line it was handed. -/
  | reading (line : Line)
deriving DecidableEq, Repr

structure State where
  control : Control := .asks
  loopStarted : Bool := false
  evaluating : Bool := false
  inTail : Bool := false
  captureValue : Bool := false
  pendingLine : Option Pending := none
  interruptRequested : Bool := false
  cell : Option Cell := none
  /-- `m_debugger->started()` and its `m_browsed`. -/
  debugging : Bool := false
  browsed : Bool := false
  debugOutput : Tagged := []
  /-- `R_curErrorBuf()` -/
  errorBuf : Text := []
  stdout : Tagged := []
  stderr : Text := []
  finished : List Finished := []
  /-- How many cells there were. -/
  begun : Nat := 0
  /-- The pending lines R was given: the cell each was made for, and the one it came to. -/
  handed : List (Nat × Nat) := []
deriving DecidableEq, Repr

/-- R's console and the debugger. -/
structure Console where
  /-- The size of R's buffer. -/
  length : Nat
  fits : ∀ line : Line, line.text.length + 1 ≤ length
  /-- Whether the debugger takes a line of output for itself. -/
  consoleLine : Text → Bool

def State.modifyCell (f : Cell → Cell) (s : State) : State := { s with cell := s.cell.map f }

def State.note (step : Step) (s : State) : State :=
  s.modifyCell fun c => { c with trace := c.trace ++ [step] }

def State.silent (s : State) : Bool :=
  match s.cell with
  | some c => c.silent
  | none => false

/-- Whether R prints a value. -/
def State.printing (s : State) : Bool :=
  match s.control with
  | .reading (.value _) => true
  | _ => false

/-! ## Output -/

def tagged (source : Source) (text : Text) : Tagged := text.map fun c => (source, c)

/-- The complete lines, without those the debugger takes, and the rest. -/
def takeLines (consoleLine : Text → Bool) (line : Tagged) : Tagged → Tagged × Tagged
  | [] => ([], line)
  | x :: rest =>
    if x.2 = '\n' then
      let lines := takeLines consoleLine [] rest
      if consoleLine (line.map Prod.snd) then lines else (line ++ x :: lines.1, lines.2)
    else takeLines consoleLine (line ++ [x]) rest

inductive Otype where
  | stdout | stderr
deriving DecidableEq, Repr

variable (console : Console)

def writeConsole (otype : Otype) (text : Text) (s : State) : State :=
  let source := if s.printing then Source.value else .code
  -- a silent cell shows nothing
  if s.silent then s
  else
    match otype with
    | .stdout =>
      -- the debugger may take a line for itself, but not of a value that is captured
      if s.debugging && !(s.inTail && s.captureValue) then
        let lines := takeLines console.consoleLine [] (s.debugOutput ++ tagged source text)
        { s with stdout := s.stdout ++ lines.1, debugOutput := lines.2 }
      -- R prints a value: the last one's is the result, the others' go nowhere
      else if s.inTail then
        if s.captureValue then s.modifyCell fun c => { c with valueText := c.valueText ++ text }
        else s
      else { s with stdout := s.stdout ++ tagged source text }
    | .stderr => { s with stderr := s.stderr ++ text }

/-! ## Errors -/

def State.wantsCellError (s : State) : Bool :=
  match s.cell with
  | some c => !c.errorRecorded && (s.evaluating || s.inTail)
  | none => false

def recordCellError (evalue : Text) (traceback : List Text) (s : State) : State :=
  if s.wantsCellError then
    s.modifyCell fun c => { c with
      errorRecorded := true, failed := true, evalue := evalue, traceback := traceback }
  else s

def trimmed (text : Text) : Text :=
  (text.reverse.dropWhile fun c => c = '\n' || c = ' ').reverse

/-! ## The end of a cell -/

def withoutNewline (text : Text) : Text :=
  if text.getLast? = some '\n' then text.dropLast else text

def Cell.reply (interrupted : Bool) (c : Cell) : Reply :=
  if interrupted then .error "KeyboardInterrupt".toList [] []
  else if c.failed && !c.silent then .error "ERROR".toList c.evalue c.traceback
  else .ok

def Cell.result (interrupted : Bool) (c : Cell) : Option Text :=
  if interrupted || c.failed || c.silent || c.valueText.isEmpty then none
  else some (withoutNewline c.valueText)

def finishCell (c : Cell) (s : State) : State :=
  { s with
    control := .polling
    inTail := false
    captureValue := false
    -- what the debugger was still to look at
    stdout := if c.silent then s.stdout else s.stdout ++ s.debugOutput
    debugOutput := []
    browsed := false
    interruptRequested := false
    cell := none
    finished := s.finished ++ [{
      number := s.begun
      count := c.count
      silent := c.silent
      trace := c.trace
      turns := c.turns
      reply := c.reply s.interruptRequested
      result := c.result s.interruptRequested }] }

/-! ## R's turns -/

/-- The loop of `readConsole`: the next expression, or the reply, or the server's turn. -/
def serve (s : State) : State :=
  match s.cell with
  | none => { s with control := .polling }
  | some c =>
    -- an error or an interrupt leaves the rest of the cell alone
    if !c.failed && !s.interruptRequested && c.next < c.count then
      { s with
        control := .evaluating
        evaluating := true
        cell := some { c with next := c.next + 1, trace := c.trace ++ [.evaluated c.next] } }
    else finishCell c s

/-- R is handed a line. -/
def State.give (line : Line) (tail capture : Bool) (s : State) : State :=
  { s with control := .reading line, inTail := tail, captureValue := capture }

/-- `evaluateNext`, from where the evaluation has a value. -/
def evaluateNext (visible : Bool) (c : Cell) (s : State) : State :=
  let s := { s with evaluating := false }
  let line := Line.value visible
  let capture := c.next = c.count && !c.silent
  -- a line that does not fit is not handed over: the value goes unseen
  if line.text.length + 1 > console.length then serve s
  -- R's browser has a line to read first; the value's waits until R asks again
  else if s.browsed then
    { s with
      browsed := false
      pendingLine := some { line := line, tail := true, capture := capture, cell := s.begun }
      control := .reading .reset }
  else s.give line true capture

/-- The evaluation that was under way has jumped. -/
def failEvaluation (s : State) : State :=
  { s with evaluating := false }.modifyCell fun c => { c with
    failed := true
    -- no handler has recorded the error: R's own buffer has its text
    evalue := if !c.errorRecorded && !s.interruptRequested then trimmed s.errorBuf else c.evalue }

def afterStart (s : State) : State :=
  -- R asks at its top prompt while an evaluation is under way: it has jumped
  if s.evaluating then
    let s := failEvaluation s
    if Line.recover.text.length + 1 ≤ console.length then s.give .recover true false else serve s
  else serve s

def afterPending (s : State) : State :=
  if s.loopStarted then afterStart console s
  else
    -- R asks for the first time
    let s := { s with loopStarted := true }
    if Line.install.text.length + 1 ≤ console.length then s.give .install true false
    else afterStart console s

/-- What R was at is over. -/
def State.asked (s : State) : State :=
  { s with inTail := false, captureValue := false }.modifyCell fun c =>
    { c with turns := c.turns + 1 }

/-- R asks at its top prompt. -/
def readConsole (s : State) : State :=
  match s.pendingLine with
  | some pending =>
    if pending.line.text.length + 1 ≤ console.length then
      { s.asked with pendingLine := none, handed := s.handed ++ [(pending.cell, s.begun)] }.give
        pending.line pending.tail pending.capture
    else afterPending console s.asked
  | none => afterPending console s.asked

/-- `executeRequestImpl`, of a cell that is parsed, and the loop that goes on. -/
def executeRequest (count : Nat) (silent : Bool) (s : State) : State :=
  serve { s with
    interruptRequested := false
    cell := some { count := count, silent := silent }
    begun := s.begun + 1 }

/-- R jumps to its top level. -/
def State.jump (s : State) : State :=
  match s.control with
  | .evaluating | .reading (.value _) =>
    { s with control := .asks }.modifyCell fun c =>
      { c with trace := c.trace ++ [Step.failed (c.next - 1)] }
  | .reading _ => { s with control := .asks }
  | _ => s

/-! ## Everything that happens -/

inductive Event where
  | ask
  | execute (count : Nat) (silent : Bool)
  /-- The expression is evaluated. -/
  | value (visible : Bool)
  /-- R is done with its line. -/
  | done
  /-- An error that hera's handler sees: it is recorded, where it is wanted, and R jumps. -/
  | recorded (evalue : Text) (traceback : List Text)
  /-- An error that it does not see, or R acting on an interrupt. -/
  | unrecorded (errorBuf : Text)
  | write (otype : Otype) (text : Text)
  /-- The debugger answers a `browser()`. -/
  | browse
  | interrupt
  /-- A debugger comes or goes. -/
  | debugger (started : Bool)
deriving DecidableEq, Repr

/-- What printing a value writes to stdout is noted. -/
def State.noteWrite (otype : Otype) (text : Text) (s : State) : State :=
  if s.printing && otype = .stdout then
    s.modifyCell fun c => { c with trace := c.trace ++ [.printed (c.next - 1) text] }
  else s

def step (s : State) : Event → State
  | .ask => if s.control = .asks then readConsole console s else s
  | .execute count silent =>
    if s.control = .polling then executeRequest count silent s else s
  | .value visible =>
    match s.control, s.cell with
    | .evaluating, some c => evaluateNext console visible c s
    | _, _ => s
  | .done =>
    match s.control with
    | .reading _ => { s with control := .asks }
    | _ => s
  | .recorded evalue traceback =>
    match s.control with
    | .evaluating | .reading _ => (recordCellError evalue traceback s).jump
    | _ => s
  | .unrecorded errorBuf => { s with errorBuf := errorBuf }.jump
  | .write otype text =>
    if s.control = .asks then s else (writeConsole console otype text s).noteWrite otype text
  | .browse =>
    match s.control with
    | .evaluating | .reading _ => { s with browsed := s.browsed || s.debugging }
    | _ => s
  | .interrupt => { s with interruptRequested := true }.note .interrupted
  | .debugger started => { s with debugging := started }

def system : Transition.System State Event :=
  .ofFn {} (step console)

/-! ## What a run of a cell is -/

namespace Step

def evaluated? : Step → Option Nat
  | .evaluated i => some i
  | _ => none

def isFailed : Step → Bool
  | .failed _ => true
  | _ => false

/-- No expression is evaluated after it. -/
def ends : Step → Bool
  | .failed _ | .interrupted => true
  | _ => false

/-- What printing the last of `count` expressions wrote. -/
def lastText (count : Nat) : Step → Text
  | .printed i text => if i + 1 = count then text else []
  | _ => []

end Step

/-- Some evaluation or printing failed. -/
def fails (trace : List Step) : Bool := trace.any Step.isFailed

def wasInterrupted (trace : List Step) : Bool := trace.any (· = .interrupted)

def lastPrinted (count : Nat) (trace : List Step) : Text := trace.flatMap (Step.lastText count)

/-- The first expressions, in order, and none behind a failure or an interrupt. -/
structure InOrder (count : Nat) (t : List Step) : Prop where
  evaluated : ∃ n ≤ count, t.filterMap Step.evaluated? = List.range n
  stops : ∀ (k i : Nat), t[k]? = some (.evaluated i) →
    ∀ earlier ∈ t.take k, earlier.ends = false

/-- **A cell is run right.** Where nothing failed and no interrupt was requested, all of it is
evaluated; the reply is an error where there was an interrupt, or a failure of a cell that is not
silent; the result is what printing the last value wrote. And R asked no more than twice for each
expression before the reply. -/
structure Right (f : Finished) : Prop where
  inOrder : InOrder f.count f.trace
  whole : fails f.trace = false → wasInterrupted f.trace = false →
    f.trace.filterMap Step.evaluated? = List.range f.count
  reply : f.reply.isError = (wasInterrupted f.trace || !f.silent && fails f.trace)
  result : f.result =
    if wasInterrupted f.trace || fails f.trace || f.silent ||
      (lastPrinted f.count f.trace).isEmpty then none
    else some (withoutNewline (lastPrinted f.count f.trace))
  turns : f.turns ≤ 2 * f.count

/-- The numbers of the cells there were, the one that is being run last. -/
def State.numbers (s : State) : List Nat :=
  s.finished.map Finished.number ++ if s.cell.isSome then [s.begun] else []

/-- **R's console runs its cells right**: those that are finished, and the one it is at. Each is
replied to once; nothing that printing a value wrote is on stdout; and no line is left for another
cell. -/
structure RunsRight (s : State) : Prop where
  finished : ∀ f ∈ s.finished, Right f
  current : ∀ c, s.cell = some c → InOrder c.count c.trace ∧ c.turns < 2 * c.count
  oneReply : s.numbers = List.range' 1 s.begun
  hidden : ∀ x ∈ s.stdout, x.1 = Source.code
  ownLine : ∀ given ∈ s.handed, given.1 = given.2

/-! ## The condition -/

/-- Printing a value jumps, unseen by hera's handler and without an interrupt requested. -/
def Event.unnoticed (s : State) : Event → Bool
  | .unrecorded _ => s.printing && !s.interruptRequested
  | _ => false

/-- With a debugger attached, printing the value of an expression that is not the last writes to
stdout. -/
def Event.revealed (s : State) : Event → Bool
  | .write .stdout text =>
    s.printing && s.debugging && !s.captureValue && !s.silent && !text.isEmpty
  | _ => false

def sound (s : State) (e : Event) : Bool := !e.unnoticed s && !e.revealed s

/-! ## Traces -/

@[simp] theorem fails_append (t : List Step) (step : Step) :
    fails (t ++ [step]) = (fails t || step.isFailed) := by
  simp [fails]

@[simp] theorem wasInterrupted_append (t : List Step) (step : Step) :
    wasInterrupted (t ++ [step]) = (wasInterrupted t || decide (step = .interrupted)) := by
  simp [wasInterrupted]

@[simp] theorem lastPrinted_append (count : Nat) (t : List Step) (step : Step) :
    lastPrinted count (t ++ [step]) = lastPrinted count t ++ step.lastText count := by
  simp [lastPrinted]

theorem evaluated_note {t : List Step} {step : Step} (h : step.evaluated? = none) :
    (t ++ [step]).filterMap Step.evaluated? = t.filterMap Step.evaluated? := by
  rw [List.filterMap_append, List.filterMap_cons_none h, List.filterMap_nil, List.append_nil]

/-- One more step: where it is an evaluation, nothing has ended the cell. -/
theorem InOrder.stops_snoc {count : Nat} {t : List Step} {step : Step} (h : InOrder count t)
    (hlast : ∀ i, step = .evaluated i → ∀ earlier ∈ t, earlier.ends = false) (k i : Nat)
    (hk : (t ++ [step])[k]? = some (.evaluated i)) :
    ∀ earlier ∈ (t ++ [step]).take k, earlier.ends = false := by
  rcases Log.getElem?_snoc.mp hk with hk | ⟨rfl, heq⟩
  · rw [Log.take_snoc hk]
    exact h.stops k i hk
  · rw [List.take_left]
    exact hlast i heq.symm

theorem InOrder.note {count : Nat} {t : List Step} (step : Step) (h : InOrder count t)
    (hstep : step.evaluated? = none) : InOrder count (t ++ [step]) where
  evaluated := by
    obtain ⟨n, hn, ht⟩ := h.evaluated
    exact ⟨n, hn, (evaluated_note hstep).trans ht⟩
  stops := by
    apply h.stops_snoc
    rintro i rfl
    cases hstep

/-- The next expression follows where nothing has ended the cell. -/
theorem InOrder.evaluate {count n : Nat} {t : List Step}
    (ht : t.filterMap Step.evaluated? = List.range n) (h : InOrder count t) (hn : n < count)
    (hfails : fails t = false) (hinterrupted : wasInterrupted t = false) :
    InOrder count (t ++ [.evaluated n]) where
  evaluated := ⟨n + 1, hn, by simp [ht, List.range_succ, Step.evaluated?]⟩
  stops := by
    apply h.stops_snoc
    intro _ _ earlier hmem
    have hfailed := List.any_eq_false.mp hfails earlier hmem
    have hinterrupt := List.any_eq_false.mp hinterrupted earlier hmem
    cases earlier <;> simp_all [Step.ends, Step.isFailed]

/-! ## The invariant -/

/-- What the flags of a cell say of its trace, wherever R is. -/
structure Kept (requested evaluating : Bool) (c : Cell) : Prop where
  inOrder : InOrder c.count c.trace
  evaluated : c.trace.filterMap Step.evaluated? = List.range c.next
  bounded : c.next ≤ c.count
  interrupted : wasInterrupted c.trace = requested
  value : c.silent = false → c.valueText = lastPrinted c.count c.trace
  failed : c.failed = true → fails c.trace = true
  noticed : fails c.trace = true → c.failed = true ∨ evaluating = true ∨ requested = true
  recorded : c.errorRecorded = true → c.failed = true

/-- Whether printing a value is captured: the last one's, of a cell that is not silent. -/
def Cell.captures (c : Cell) : Bool := c.next = c.count && !c.silent

/-- A pending line shows the value of the last expression that was evaluated. -/
structure Pending.Of (number : Nat) (c : Cell) (p : Pending) : Prop where
  cell : p.cell = number
  tail : p.tail = true
  capture : p.capture = c.captures
  line : ∃ visible, p.line = .value visible

/-- What the flags are where R is. -/
structure Placed (s : State) (c : Cell) : Prop where
  loopStarted : s.loopStarted = true
  serving : s.control ≠ .polling
  installed : s.control ≠ .reading .install
  evaluating : s.control = .evaluating → s.evaluating = true
  jumped : s.evaluating = true →
    s.control = .evaluating ∨ s.control = .asks ∧ fails c.trace = true
  running : s.control = .evaluating ∨ s.printing = true → fails c.trace = false
  tail : s.printing = true → s.inTail = true ∧ s.captureValue = c.captures
  outside : s.control = .evaluating ∨ s.control = .reading .reset → s.inTail = false
  recover : s.control = .reading .recover → c.failed = true ∧ s.captureValue = false
  pending : ∀ p, s.pendingLine = some p → (s.control = .asks ∨ s.control = .reading .reset) ∧
    p.Of s.begun c ∧ fails c.trace = false ∧ s.evaluating = false
  turns : c.turns + (if s.evaluating || s.pendingLine.isSome then 2 else 1) ≤ 2 * c.next

/-- What is behind. -/
structure Books (s : State) : Prop where
  finished : ∀ f ∈ s.finished, Right f
  oneReply : s.numbers = List.range' 1 s.begun
  code : ∀ x ∈ s.stdout ++ s.debugOutput, x.1 = Source.code
  ownLine : ∀ given ∈ s.handed, given.1 = given.2

structure Inv (s : State) : Prop where
  books : Books s
  cell : ∀ c, s.cell = some c → Kept s.interruptRequested s.evaluating c ∧ Placed s c
  idle : s.cell = none → s.pendingLine = none ∧ s.evaluating = false ∧
    (s.control = .asks ∨ s.control = .polling ∧ s.inTail = false ∨ s.control = .reading .install)
  started : s.loopStarted = true ∨ s.control = .asks

theorem Books.modifyCell {s : State} (f : Cell → Cell) (h : Books s) :
    Books (s.modifyCell f) where
  finished := h.finished
  oneReply := by
    show s.finished.map Finished.number ++ (if (s.cell.map f).isSome then [s.begun] else []) = _
    rw [Option.isSome_map]
    exact h.oneReply
  code := h.code
  ownLine := h.ownLine

/-- Where R is, and what hera's flags are, is not in the books. -/
theorem Books.moved {s : State} {control : Control} {pendingLine : Option Pending}
    {stderr errorBuf : Text}
    {loopStarted evaluating inTail captureValue interruptRequested debugging browsed : Bool}
    (h : Books s) :
    Books { s with
      control, pendingLine, stderr, errorBuf, loopStarted, evaluating, inTail, captureValue
      interruptRequested, debugging, browsed } :=
  ⟨h.finished, h.oneReply, h.code, h.ownLine⟩

/-! ## The loop -/

/-- Where `readConsole`'s loop turns. -/
structure Ready (s : State) : Prop where
  books : Books s
  cell : ∀ c, s.cell = some c → Kept s.interruptRequested false c ∧ c.turns ≤ 2 * c.next
  evaluating : s.evaluating = false
  pending : s.pendingLine = none
  inTail : s.inTail = false
  loopStarted : s.loopStarted = true

/-- Without an interrupt, `failed` says what failed. -/
theorem Kept.fails_eq {c : Cell} (h : Kept false false c) : fails c.trace = c.failed := by
  rw [Bool.eq_iff_iff]
  refine ⟨fun hfails => ?_, h.failed⟩
  simpa using h.noticed hfails

/-- A cell whose expressions are over is replied to as it was run. -/
theorem Kept.right {requested : Bool} {c : Cell} (number : Nat) (h : Kept requested false c)
    (hover : c.failed = true ∨ requested = true ∨ c.count ≤ c.next)
    (hturns : c.turns ≤ 2 * c.next) :
    Right {
      number := number, count := c.count, silent := c.silent, trace := c.trace
      turns := c.turns, reply := c.reply requested, result := c.result requested } where
  inOrder := h.inOrder
  whole hfails hinterrupted := by
    have hfailed : c.failed = false := by
      by_contra hfailed
      rw [h.failed (by simpa using hfailed)] at hfails
      cases hfails
    have hrequested : requested = false := by rw [← h.interrupted, hinterrupted]
    have hend : c.next = c.count := by
      rcases hover with hover | hover | hover
      · rw [hfailed] at hover
        cases hover
      · rw [hrequested] at hover
        cases hover
      · exact Nat.le_antisymm h.bounded hover
    show c.trace.filterMap Step.evaluated? = List.range c.count
    rw [h.evaluated, hend]
  reply := by
    show (c.reply requested).isError = (wasInterrupted c.trace || !c.silent && fails c.trace)
    rw [h.interrupted]
    cases hrequested : requested with
    | true => rfl
    | false =>
      have hkept : Kept false false c := hrequested ▸ h
      rw [hkept.fails_eq, Cell.reply]
      cases c.failed <;> cases c.silent <;> rfl
  result := by
    show c.result requested = if wasInterrupted c.trace || fails c.trace || c.silent || _ then _ else _
    rw [h.interrupted, Cell.result]
    cases hrequested : requested with
    | true => rfl
    | false =>
      have hkept : Kept false false c := hrequested ▸ h
      rw [hkept.fails_eq]
      cases hsilent : c.silent with
      | true => simp
      | false => rw [h.value hsilent]
  turns := Nat.le_trans hturns (Nat.mul_le_mul_left 2 h.bounded)

theorem finishCell_inv {s : State} {c : Cell} (h : Ready s) (hcell : s.cell = some c)
    (hover : c.failed = true ∨ s.interruptRequested = true ∨ c.count ≤ c.next) :
    Inv (finishCell c s) := by
  obtain ⟨hkept, hturns⟩ := h.cell c hcell
  refine ⟨⟨?_, ?_, ?_, h.books.ownLine⟩, fun c hc => (by cases hc), fun _ =>
    ⟨h.pending, h.evaluating, .inr (.inl ⟨rfl, rfl⟩)⟩, .inl h.loopStarted⟩
  · intro f hf
    rcases List.mem_append.mp hf with hf | hf
    · exact h.books.finished f hf
    · rw [List.mem_singleton.mp hf]
      exact hkept.right s.begun hover hturns
  · have hnumbers := h.books.oneReply
    simp only [State.numbers, hcell, Option.isSome_some, if_true] at hnumbers
    simp [State.numbers, finishCell, hnumbers]
  · intro x hx
    have hx' : x ∈ s.stdout ++ s.debugOutput := by
      simp only [finishCell, List.append_nil] at hx
      split at hx
      · exact List.mem_append_left _ hx
      · exact hx
    exact h.books.code x hx'

theorem evaluate_inv {s : State} {c : Cell} (h : Ready s) (hcell : s.cell = some c)
    (hfailed : c.failed = false) (hrequested : s.interruptRequested = false)
    (hnext : c.next < c.count) :
    Inv { s with
      control := .evaluating
      evaluating := true
      cell := some { c with next := c.next + 1, trace := c.trace ++ [.evaluated c.next] } } := by
  obtain ⟨hkept, hturns⟩ := h.cell c hcell
  have hclear : Kept false false c := hrequested ▸ hkept
  have hfails : fails c.trace = false := by rw [hclear.fails_eq, hfailed]
  have hinterrupted : wasInterrupted c.trace = false := by rw [hkept.interrupted, hrequested]
  have hfails' : fails (c.trace ++ [.evaluated c.next]) = false := by simp [hfails, Step.isFailed]
  refine ⟨⟨h.books.finished, ?_, h.books.code, h.books.ownLine⟩, fun c' hc' => ?_,
    fun hnone => (by cases hnone), .inl h.loopStarted⟩
  · have hnumbers := h.books.oneReply
    simpa [State.numbers, hcell] using hnumbers
  · obtain rfl := Option.some.inj hc'
    refine ⟨?_, ?_⟩
    · refine ⟨hkept.inOrder.evaluate hkept.evaluated hnext hfails hinterrupted, ?_, hnext, ?_,
        fun hsilent => ?_, ?_, fun _ => .inr (.inl rfl), ?_⟩
      · simp [hkept.evaluated, List.range_succ, Step.evaluated?]
      · simpa using hkept.interrupted
      · simpa [Step.lastText] using hkept.value hsilent
      · intro hc
        rw [hfailed] at hc
        cases hc
      · exact hkept.recorded
    · refine ⟨h.loopStarted, by simp, by simp, fun _ => rfl, fun _ => .inl rfl, fun _ => hfails',
        fun hprinting => (by cases hprinting), fun _ => h.inTail, fun hrecover => (by cases hrecover),
        fun p hp => ?_, ?_⟩
      · rw [h.pending] at hp
        cases hp
      · show c.turns + 2 ≤ 2 * (c.next + 1)
        omega

theorem serve_inv {s : State} (h : Ready s) : Inv (serve s) := by
  rw [serve]
  split
  · next hcell =>
    exact ⟨h.books.moved, fun c hc => (by rw [hcell] at hc; cases hc),
      fun _ => ⟨h.pending, h.evaluating, .inr (.inl ⟨rfl, h.inTail⟩)⟩, .inl h.loopStarted⟩
  · next c hcell =>
    split
    · next hgoes =>
      obtain ⟨⟨hfailed, hrequested⟩, hnext⟩ : (c.failed = false ∧ s.interruptRequested = false) ∧
        c.next < c.count := by simpa using hgoes
      exact evaluate_inv h hcell hfailed hrequested hnext
    · next hover =>
      apply finishCell_inv h hcell
      simp only [Bool.and_eq_true, Bool.not_eq_true', decide_eq_true_eq, not_and] at hover
      cases hfailed : c.failed with
      | true => exact .inl rfl
      | false =>
        cases hrequested : s.interruptRequested with
        | true => exact .inr (.inl rfl)
        | false => exact .inr (.inr (Nat.le_of_not_lt (hover ⟨hfailed, hrequested⟩)))

/-! ## R asks -/

theorem Kept.turn {requested evaluating : Bool} {c : Cell} (h : Kept requested evaluating c) :
    Kept requested evaluating { c with turns := c.turns + 1 } :=
  ⟨h.inOrder, h.evaluated, h.bounded, h.interrupted, h.value, h.failed, h.noticed, h.recorded⟩

theorem asked_cell {s : State} {c : Cell} (h : s.asked.cell = some c) :
    ∃ c₀, s.cell = some c₀ ∧ { c₀ with turns := c₀.turns + 1 } = c :=
  Option.map_eq_some_iff.mp h

theorem asked_books {s : State} (h : Books s) : Books s.asked :=
  Books.modifyCell _ h.moved

/-- Nothing is left from before: the loop goes on. -/
theorem Inv.asked_ready {s : State} (h : Inv s) (hloop : s.loopStarted = true)
    (hpending : s.pendingLine = none) (hevaluating : s.evaluating = false) : Ready s.asked where
  books := asked_books h.books
  cell c hc := by
    obtain ⟨c₀, hc₀, rfl⟩ := asked_cell hc
    obtain ⟨hkept, hplaced⟩ := h.cell c₀ hc₀
    have hturns := hplaced.turns
    rw [hpending, hevaluating] at hturns
    refine ⟨?_, hturns⟩
    rw [hevaluating] at hkept
    exact hkept.turn
  evaluating := hevaluating
  pending := hpending
  inTail := rfl
  loopStarted := hloop

/-- The line that was pending is given to R, for the cell it was made for. -/
theorem Inv.givePending {s : State} {pending : Pending} (h : Inv s)
    (hpending : s.pendingLine = some pending) :
    Inv ({ s.asked with
      pendingLine := none, handed := s.handed ++ [(pending.cell, s.begun)] }.give
        pending.line pending.tail pending.capture) := by
  have hsome : s.cell ≠ none := fun hnone => by
    rw [(h.idle hnone).1] at hpending
    cases hpending
  obtain ⟨c₀, hc₀⟩ := Option.ne_none_iff_exists'.mp hsome
  obtain ⟨hkept, hplaced⟩ := h.cell c₀ hc₀
  obtain ⟨-, hof, hfails, hevaluating⟩ := hplaced.pending pending hpending
  obtain ⟨visible, hline⟩ := hof.line
  have hbooks := asked_books h.books
  refine ⟨⟨hbooks.finished, hbooks.oneReply, hbooks.code, fun given hgiven => ?_⟩,
    fun c hc => ?_, fun hnone => ?_, .inl hplaced.loopStarted⟩
  · rcases List.mem_append.mp hgiven with hgiven | hgiven
    · exact h.books.ownLine given hgiven
    · rw [List.mem_singleton.mp hgiven]
      exact hof.cell
  · obtain ⟨c₁, hc₁, rfl⟩ := asked_cell hc
    obtain rfl : c₀ = c₁ := Option.some.inj (hc₀.symm.trans hc₁)
    refine ⟨hkept.turn, hplaced.loopStarted, by simp [State.give], ?_, ?_, ?_, fun _ => hfails,
      fun _ => ⟨hof.tail, hof.capture⟩, ?_, ?_, fun p hp => (by cases hp), ?_⟩
    · simp [State.give, hline]
    · simp [State.give]
    · intro hjumped
      have : s.evaluating = true := hjumped
      rw [hevaluating] at this
      cases this
    · simp [State.give, hline]
    · simp [State.give, hline]
    · have hturns := hplaced.turns
      rw [hpending, hevaluating] at hturns
      show c₀.turns + 1 + (if s.evaluating || false then 2 else 1) ≤ 2 * c₀.next
      rw [hevaluating]
      exact hturns
  · have hmapped : s.cell.map _ = none := hnone
    rw [hc₀] at hmapped
    cases hmapped

/-- An evaluation that jumped: R is given its turn to recover. -/
theorem Inv.giveRecover {s : State} {c₀ : Cell} (h : Inv s) (hc₀ : s.cell = some c₀)
    (hpending : s.pendingLine = none) (hevaluating : s.evaluating = true)
    (hjumped : fails c₀.trace = true) :
    Inv ((failEvaluation s.asked).give .recover true false) := by
  obtain ⟨hkept, hplaced⟩ := h.cell c₀ hc₀
  have hbooks : Books (failEvaluation s.asked) := Books.modifyCell _ (asked_books h.books).moved
  refine ⟨hbooks.moved, fun c hc => ?_,
    fun hnone => ?_, .inl hplaced.loopStarted⟩
  · obtain ⟨c₁, hc₁, rfl⟩ := Option.map_eq_some_iff.mp hc
    obtain ⟨c₂, hc₂, rfl⟩ := asked_cell hc₁
    obtain rfl : c₀ = c₂ := Option.some.inj (hc₀.symm.trans hc₂)
    refine ⟨⟨hkept.inOrder, hkept.evaluated, hkept.bounded, hkept.interrupted, hkept.value,
      fun _ => hjumped, fun _ => .inl rfl, fun _ => rfl⟩, hplaced.loopStarted, by simp [State.give],
      by simp [State.give], by simp [State.give], fun hfalse => (by cases hfalse), ?_, ?_,
      by simp [State.give], fun _ => ⟨rfl, rfl⟩, fun p hp => ?_, ?_⟩
    · rintro (hrunning | hrunning) <;> cases hrunning
    · intro hprinting
      cases hprinting
    · have : s.pendingLine = some p := hp
      rw [hpending] at this
      cases this
    · have hturns := hplaced.turns
      rw [hpending, hevaluating] at hturns
      show c₀.turns + 1 + (if false || s.pendingLine.isSome then 2 else 1) ≤ 2 * c₀.next
      rw [hpending]
      exact hturns
  · have hmapped : (s.cell.map _).map _ = none := hnone
    rw [hc₀] at hmapped
    cases hmapped

theorem Inv.ask {s : State} (h : Inv s) (hasks : s.control = .asks) :
    Inv (readConsole console s) := by
  rw [readConsole]
  split
  · next pending hpending =>
    rw [if_pos (console.fits pending.line)]
    exact h.givePending hpending
  · next hpending =>
    by_cases hloop : s.loopStarted = true
    · have hafter : afterPending console s.asked = afterStart console s.asked := if_pos hloop
      rw [hafter]
      cases hevaluating : s.evaluating with
      | true =>
        have hrecovers : afterStart console s.asked =
            (failEvaluation s.asked).give .recover true false := by
          rw [afterStart, if_pos (show s.asked.evaluating = true from hevaluating)]
          exact if_pos (console.fits .recover)
        rw [hrecovers]
        cases hcell : s.cell with
        | none =>
          have hidle := (h.idle hcell).2.1
          rw [hevaluating] at hidle
          cases hidle
        | some c =>
          refine h.giveRecover hcell hpending hevaluating ?_
          have hjumped := (h.cell c hcell).2.jumped hevaluating
          simpa [hasks] using hjumped
      | false =>
        have hserves : afterStart console s.asked = serve s.asked :=
          if_neg (show ¬s.evaluating = true from Bool.eq_false_iff.mp hevaluating)
        rw [hserves]
        exact serve_inv (h.asked_ready hloop hpending hevaluating)
    · -- R's very first turn
      have hnone : s.cell = none := by
        cases hcell : s.cell with
        | none => rfl
        | some c => exact absurd (h.cell c hcell).2.loopStarted hloop
      have hinstalls : afterPending console s.asked =
          { s.asked with loopStarted := true }.give .install true false := by
        rw [afterPending, if_neg (show ¬s.asked.loopStarted = true from hloop)]
        exact if_pos (console.fits .install)
      rw [hinstalls]
      refine ⟨(asked_books h.books).moved, fun c hc => ?_,
        fun _ => ⟨hpending, (h.idle hnone).2.1, .inr (.inr rfl)⟩, .inl rfl⟩
      have hmapped : s.cell.map _ = some c := hc
      rw [hnone] at hmapped
      cases hmapped

/-- A new cell. -/
theorem Inv.execute {s : State} (count : Nat) (silent : Bool) (h : Inv s)
    (hpolling : s.control = .polling) : Inv (executeRequest count silent s) := by
  have hnone : s.cell = none := by
    cases hcell : s.cell with
    | none => rfl
    | some c => exact absurd hpolling (h.cell c hcell).2.serving
  have hloop : s.loopStarted = true := by simpa [hpolling] using h.started
  obtain ⟨hpending, hevaluating, hidle⟩ := h.idle hnone
  have hinTail : s.inTail = false := by simpa [hpolling] using hidle
  refine serve_inv ⟨⟨h.books.finished, ?_, h.books.code, h.books.ownLine⟩, fun c hc => ?_,
    hevaluating, hpending, hinTail, hloop⟩
  · have hnumbers := h.books.oneReply
    simp only [State.numbers, hnone, Option.isSome_none, Bool.false_eq_true, if_false,
      List.append_nil] at hnumbers
    simp [State.numbers, hnumbers, List.range'_concat, Nat.add_comm]
  · obtain rfl := Option.some.inj hc
    refine ⟨⟨⟨⟨0, Nat.zero_le _, rfl⟩, by simp⟩, rfl, Nat.zero_le _, rfl, fun _ => rfl,
      by simp, by simp [fails], by simp⟩, Nat.zero_le _⟩

/-! ## R evaluates -/

/-- While nothing has failed, there is nothing to notice. -/
theorem Kept.returned {requested evaluating : Bool} {c : Cell} (evaluating' : Bool)
    (h : Kept requested evaluating c) (hfails : fails c.trace = false) :
    Kept requested evaluating' c :=
  ⟨h.inOrder, h.evaluated, h.bounded, h.interrupted, h.value, h.failed,
    fun hfailed => absurd hfailed (by simp [hfails]), h.recorded⟩

theorem Inv.value {s : State} {c : Cell} (visible : Bool) (h : Inv s)
    (hevaluating : s.control = .evaluating) (hcell : s.cell = some c) :
    Inv (evaluateNext console visible c s) := by
  obtain ⟨hkept, hplaced⟩ := h.cell c hcell
  have hfails := hplaced.running (.inl hevaluating)
  have hreturned : Kept s.interruptRequested false c := hkept.returned false hfails
  have hsome {c' : Cell} (hc' : s.cell = some c') : c = c' := Option.some.inj (hcell.symm.trans hc')
  have hnone (hnone : s.cell = none) : False := by
    rw [hcell] at hnone
    cases hnone
  have hpending : s.pendingLine = none := by
    cases hpending : s.pendingLine with
    | none => rfl
    | some p =>
      have hp := (hplaced.pending p hpending).2.2.2
      rw [hplaced.evaluating hevaluating] at hp
      cases hp
  have hturns : c.turns + 2 ≤ 2 * c.next := by
    have hturns := hplaced.turns
    rwa [hplaced.evaluating hevaluating] at hturns
  rw [evaluateNext, if_neg (Nat.not_lt.mpr (console.fits (.value visible)))]
  split
  · -- R's console is reset first, and this line waits
    refine ⟨h.books.moved, fun c' hc' => ?_, fun hc' => (hnone hc').elim,
      .inl hplaced.loopStarted⟩
    obtain rfl := hsome hc'
    refine ⟨hreturned, hplaced.loopStarted, by simp, by simp, by simp, by simp, ?_, ?_, fun _ => ?_,
      by simp, fun p hp => ?_, hturns⟩
    · rintro (hrunning | hrunning) <;> cases hrunning
    · intro hprinting
      cases hprinting
    · exact hplaced.outside (.inl hevaluating)
    · obtain rfl := Option.some.inj hp
      exact ⟨.inr rfl, ⟨rfl, rfl, rfl, visible, rfl⟩, hfails, rfl⟩
  · refine ⟨h.books.moved, fun c' hc' => ?_, fun hc' => (hnone hc').elim,
      .inl hplaced.loopStarted⟩
    obtain rfl := hsome hc'
    refine ⟨hreturned, hplaced.loopStarted, by simp [State.give], by simp [State.give],
      by simp [State.give], fun hfalse => (by cases hfalse), fun _ => hfails, fun _ => ⟨rfl, rfl⟩,
      by simp [State.give], by simp [State.give], fun p hp => ?_, ?_⟩
    · have hp : s.pendingLine = some p := hp
      rw [hpending] at hp
      cases hp
    · show c.turns + (if false || s.pendingLine.isSome then 2 else 1) ≤ 2 * c.next
      rw [hpending]
      exact Nat.le_of_succ_le hturns

/-! ## R is done, or jumps -/

/-- R comes back from a line. -/
theorem Inv.done {s : State} {line : Line} (h : Inv s) (hreading : s.control = .reading line) :
    Inv { s with control := .asks } := by
  refine ⟨h.books.moved, fun c hc => ?_,
    fun hnone => ⟨(h.idle hnone).1, (h.idle hnone).2.1, .inl rfl⟩, .inr rfl⟩
  obtain ⟨hkept, hplaced⟩ := h.cell c hc
  refine ⟨hkept, hplaced.loopStarted, by simp, by simp, by simp, fun htrue => ?_, ?_, ?_, ?_,
    by simp, fun p hp => ⟨.inl rfl, (hplaced.pending p hp).2⟩, hplaced.turns⟩
  · have hjumped := hplaced.jumped htrue
    simp [hreading] at hjumped
  · rintro (hrunning | hrunning) <;> cases hrunning
  · intro hprinting
    cases hprinting
  · rintro (hrunning | hrunning) <;> cases hrunning

/-- R jumps out of an evaluation, or of printing a value. What is recorded of it is as hera's
handler left it; the failure does not go unnoticed. -/
theorem Inv.fail {s : State} {c : Cell} (h : Inv s) (hcell : s.cell = some c)
    (hwhere : s.control = .evaluating ∨ s.printing = true)
    (recorded failed : Bool) (evalue : Text) (traceback : List Text)
    (hrecorded : recorded = true → failed = true)
    (hnoticed : failed = true ∨ s.control = .evaluating ∨ s.interruptRequested = true) :
    Inv { s with
      control := .asks
      cell := some { c with
        errorRecorded := recorded, failed := failed, evalue := evalue, traceback := traceback
        trace := c.trace ++ [.failed (c.next - 1)] } } := by
  obtain ⟨hkept, hplaced⟩ := h.cell c hcell
  have hfails : fails (c.trace ++ [.failed (c.next - 1)]) = true := by simp [Step.isFailed]
  refine ⟨⟨h.books.finished, ?_, h.books.code, h.books.ownLine⟩, fun c' hc' => ?_,
    fun hnone => (by cases hnone), .inl hplaced.loopStarted⟩
  · have hnumbers := h.books.oneReply
    simpa [State.numbers, hcell] using hnumbers
  · obtain rfl := Option.some.inj hc'
    refine ⟨⟨hkept.inOrder.note _ rfl, ?_, hkept.bounded, ?_, fun hsilent => ?_, fun _ => hfails,
      fun _ => ?_, hrecorded⟩, hplaced.loopStarted, by simp, by simp, by simp,
      fun _ => .inr ⟨rfl, hfails⟩, ?_, ?_, ?_, by simp, fun p hp => ?_, hplaced.turns⟩
    · exact (evaluated_note rfl).trans hkept.evaluated
    · simpa using hkept.interrupted
    · simpa [Step.lastText] using hkept.value hsilent
    · rcases hnoticed with hnoticed | hnoticed | hnoticed
      · exact .inl hnoticed
      · exact .inr (.inl (hplaced.evaluating hnoticed))
      · exact .inr (.inr hnoticed)
    · rintro (hrunning | hrunning) <;> cases hrunning
    · intro hprinting
      cases hprinting
    · rintro (hrunning | hrunning) <;> cases hrunning
    · -- nothing is pending there
      have hpending := (hplaced.pending p hp).1
      rcases hwhere with hwhere | hwhere <;> rcases hpending with hpending | hpending <;>
        simp_all [State.printing]

theorem printing_line {s : State} (h : s.printing = true) :
    ∃ visible, s.control = .reading (.value visible) := by
  rw [State.printing] at h
  split at h
  · next visible hcontrol => exact ⟨visible, hcontrol⟩
  · cases h

/-- A line that shows no value: the jump ends it like any other end. -/
theorem Inv.leave {s : State} {line : Line} (h : Inv s) (hreading : s.control = .reading line)
    (hprinting : s.printing = false) : Inv s.jump := by
  have hjump : s.jump = { s with control := .asks } := by
    rw [State.jump, hreading]
    cases line with
    | value visible => simp [State.printing, hreading] at hprinting
    | install | recover | reset => rfl
  rw [hjump]
  exact h.done hreading

theorem jump_of_cell {s : State} {c : Cell} (hcell : s.cell = some c)
    (hwhere : s.control = .evaluating ∨ s.printing = true) :
    s.jump = { s with
      control := .asks
      cell := some { c with trace := c.trace ++ [.failed (c.next - 1)] } } := by
  rcases hwhere with hwhere | hwhere
  · simp [State.jump, hwhere, State.modifyCell, hcell]
  · obtain ⟨visible, hline⟩ := printing_line hwhere
    simp [State.jump, hline, State.modifyCell, hcell]

/-- Where an expression is evaluated or shown, there is a cell. -/
theorem Inv.exists_cell {s : State} (h : Inv s)
    (hwhere : s.control = .evaluating ∨ s.printing = true) : ∃ c, s.cell = some c := by
  refine Option.ne_none_iff_exists'.mp fun hnone => ?_
  have hidle := (h.idle hnone).2.2
  rcases hwhere with hwhere | hwhere
  · simp [hwhere] at hidle
  · obtain ⟨visible, hline⟩ := printing_line hwhere
    simp [hline] at hidle

/-- Hera's handler records what was not recorded, and R jumps. -/
theorem Inv.recordedFailure {s : State} (evalue : Text) (traceback : List Text) (h : Inv s)
    (hwhere : s.control = .evaluating ∨ s.printing = true) :
    Inv (recordCellError evalue traceback s).jump := by
  obtain ⟨c, hcell⟩ := h.exists_cell hwhere
  obtain ⟨hkept, hplaced⟩ := h.cell c hcell
  have hfails := hplaced.running hwhere
  have hunrecorded : c.errorRecorded = false := by
    by_contra hrecorded
    rw [hkept.failed (hkept.recorded (by simpa using hrecorded))] at hfails
    cases hfails
  have hflags : (s.evaluating || s.inTail) = true := by
    rcases hwhere with hwhere | hwhere
    · rw [hplaced.evaluating hwhere]
      rfl
    · rw [(hplaced.tail hwhere).1, Bool.or_true]
  have hwants : s.wantsCellError = true := by
    simp [State.wantsCellError, hcell, hunrecorded, hflags]
  rw [recordCellError, if_pos hwants]
  have hjump := jump_of_cell (s := s.modifyCell fun c => { c with
    errorRecorded := true, failed := true, evalue := evalue, traceback := traceback })
    (c := { c with
      errorRecorded := true, failed := true, evalue := evalue, traceback := traceback })
    (by simp [State.modifyCell, hcell]) hwhere
  rw [hjump]
  exact h.fail hcell hwhere true true evalue traceback (fun _ => rfl) (.inl rfl)

/-- Only the cell changes, and whether an interrupt is requested. -/
theorem Inv.modifyCell {s : State} (requested : Bool) {f : Cell → Cell} (h : Inv s)
    (hf : ∀ c, s.cell = some c → Kept s.interruptRequested s.evaluating c → Placed s c →
      Kept requested s.evaluating (f c) ∧
        Placed { s with cell := s.cell.map f, interruptRequested := requested } (f c)) :
    Inv ({ s with interruptRequested := requested }.modifyCell f) := by
  refine ⟨Books.modifyCell _ h.books.moved, fun c hc => ?_,
    fun hnone => h.idle (Option.map_eq_none_iff.mp hnone), h.started⟩
  obtain ⟨c₀, hc₀, rfl⟩ := Option.map_eq_some_iff.mp hc
  obtain ⟨hkept, hplaced⟩ := h.cell c₀ hc₀
  exact hf c₀ hc₀ hkept hplaced

/-- An error in the turn that recovers is one more of a cell that has failed. -/
theorem Inv.recordedRecovering {s : State} (evalue : Text) (traceback : List Text) (h : Inv s)
    (hrecover : s.control = .reading .recover) : Inv (recordCellError evalue traceback s) := by
  rw [recordCellError]
  split
  · refine h.modifyCell s.interruptRequested fun c₀ _ hkept hplaced => ?_
    have hfailed := (hplaced.recover hrecover).1
    exact ⟨⟨hkept.inOrder, hkept.evaluated, hkept.bounded, hkept.interrupted, hkept.value,
      fun _ => hkept.failed hfailed, fun _ => .inl rfl, fun _ => rfl⟩,
      ⟨hplaced.loopStarted, hplaced.serving, hplaced.installed, hplaced.evaluating, hplaced.jumped,
        hplaced.running, hplaced.tail, hplaced.outside, fun hline => ⟨rfl, (hplaced.recover hline).2⟩,
        fun p hp => ⟨(hplaced.pending p hp).1, ⟨(hplaced.pending p hp).2.1.cell,
          (hplaced.pending p hp).2.1.tail, (hplaced.pending p hp).2.1.capture,
          (hplaced.pending p hp).2.1.line⟩, (hplaced.pending p hp).2.2⟩, hplaced.turns⟩⟩
  · exact h

theorem Inv.recorded {s : State} (evalue : Text) (traceback : List Text) (h : Inv s) :
    Inv (step console s (.recorded evalue traceback)) := by
  have hunwanted (hcontrol : s.control = .reading .install ∨ s.control = .reading .reset) :
      recordCellError evalue traceback s = s := by
    refine if_neg ?_
    rw [State.wantsCellError]
    cases hcell : s.cell with
    | none => simp
    | some c =>
      have hplaced := (h.cell c hcell).2
      have hreset : s.control = .reading .reset := hcontrol.resolve_left hplaced.installed
      have hevaluating : s.evaluating = false := by
        by_contra htrue
        have hjumped := hplaced.jumped (by simpa using htrue)
        simp [hreset] at hjumped
      simp [hevaluating, hplaced.outside (.inr hreset)]
  cases hcontrol : s.control with
  | asks =>
    simp only [step, hcontrol]
    exact h
  | polling =>
    simp only [step, hcontrol]
    exact h
  | evaluating =>
    simp only [step, hcontrol]
    exact h.recordedFailure evalue traceback (.inl hcontrol)
  | reading line =>
    simp only [step, hcontrol]
    cases line with
    | value visible =>
      exact h.recordedFailure evalue traceback (.inr (by simp [State.printing, hcontrol]))
    | install =>
      rw [hunwanted (.inl hcontrol)]
      exact h.leave hcontrol (by simp [State.printing, hcontrol])
    | reset =>
      rw [hunwanted (.inr hcontrol)]
      exact h.leave hcontrol (by simp [State.printing, hcontrol])
    | recover =>
      have hrecover : (recordCellError evalue traceback s).control = .reading .recover := by
        rw [recordCellError]
        split <;> exact hcontrol
      exact (h.recordedRecovering evalue traceback hcontrol).leave hrecover
        (by simp [State.printing, hrecover])

/-- What is written, the error buffer and the debugger's flags decide nothing of a cell but how its
value is shown. -/
theorem Inv.beside {s : State} {stdout debugOutput : Tagged} {stderr errorBuf : Text}
    {debugging browsed : Bool} (h : Inv s)
    (hcode : ∀ x ∈ stdout ++ debugOutput, x.1 = Source.code) :
    Inv { s with stdout, debugOutput, stderr, errorBuf, debugging, browsed } := by
  refine ⟨⟨h.books.finished, h.books.oneReply, hcode, h.books.ownLine⟩, fun c hc => ?_,
    h.idle, h.started⟩
  obtain ⟨hkept, hplaced⟩ := h.cell c hc
  exact ⟨hkept, hplaced.loopStarted, hplaced.serving, hplaced.installed, hplaced.evaluating,
    hplaced.jumped, hplaced.running, hplaced.tail, hplaced.outside, hplaced.recover,
    hplaced.pending, hplaced.turns⟩

theorem jump_aside {s : State} (h : s.control = .asks ∨ s.control = .polling) : s.jump = s := by
  rw [State.jump]
  rcases h with h | h <;> rw [h]

theorem Inv.unrecorded {s : State} (h : Inv s)
    (hnoticed : s.printing = true → s.interruptRequested = true) : Inv s.jump := by
  have hfail (hwhere : s.control = .evaluating ∨ s.printing = true) : Inv s.jump := by
    obtain ⟨c, hcell⟩ := h.exists_cell hwhere
    obtain ⟨hkept, hplaced⟩ := h.cell c hcell
    rw [jump_of_cell hcell hwhere]
    refine h.fail hcell hwhere c.errorRecorded c.failed c.evalue c.traceback hkept.recorded ?_
    rcases hwhere with hwhere | hwhere
    · exact .inr (.inl hwhere)
    · exact .inr (.inr (hnoticed hwhere))
  cases hcontrol : s.control with
  | asks =>
    rw [jump_aside (.inl hcontrol)]
    exact h
  | polling =>
    rw [jump_aside (.inr hcontrol)]
    exact h
  | evaluating => exact hfail (.inl hcontrol)
  | reading line =>
    cases hprinting : s.printing with
    | true => exact hfail (.inr hprinting)
    | false => exact h.leave hcontrol hprinting

/-! ## Output and interrupts -/

theorem mem_takeLines {consoleLine : Text → Bool} {line text : Tagged} :
    ∀ x ∈ (takeLines consoleLine line text).1 ++ (takeLines consoleLine line text).2,
      x ∈ line ++ text := by
  induction text generalizing line with
  | nil => simp [takeLines]
  | cons y rest ih =>
    intro x hx
    rw [takeLines] at hx
    split at hx
    · have hrest (hx : x ∈ (takeLines consoleLine [] rest).1 ++
          (takeLines consoleLine [] rest).2) : x ∈ line ++ y :: rest := by
        have hmem := ih x hx
        exact List.mem_append_right _ (List.mem_cons_of_mem _ hmem)
      dsimp only at hx
      split at hx
      · exact hrest hx
      · rw [List.append_assoc, List.cons_append] at hx
        rcases List.mem_append.mp hx with hx | hx
        · exact List.mem_append_left _ hx
        · rcases List.mem_cons.mp hx with rfl | hx
          · exact List.mem_append_right _ List.mem_cons_self
          · exact hrest hx
    · simpa using ih x hx

theorem mem_tagged {source : Source} {text : Text} {x : Source × Char} (h : x ∈ tagged source text) :
    x.1 = source := by
  obtain ⟨_, _, rfl⟩ := List.mem_map.mp h
  rfl

/-- A step that is no failure leaves everything in its place. -/
theorem Placed.note {s : State} {c : Cell} {step : Step} (cell : Option Cell) (requested : Bool)
    (valueText : Text) (h : Placed s c) (hfailed : step.isFailed = false) :
    Placed { s with cell := cell, interruptRequested := requested }
      { c with valueText := valueText, trace := c.trace ++ [step] } := by
  have hfails : fails (c.trace ++ [step]) = fails c.trace := by simp [hfailed]
  refine ⟨h.loopStarted, h.serving, h.installed, h.evaluating, ?_, ?_, h.tail, h.outside,
    h.recover, fun p hp => ?_, h.turns⟩
  · rw [hfails]
    exact h.jumped
  · rw [hfails]
    exact h.running
  · obtain ⟨hwhere, hof, hclear⟩ := h.pending p hp
    rw [hfails]
    exact ⟨hwhere, ⟨hof.cell, hof.tail, hof.capture, hof.line⟩, hclear⟩

/-- Something is noted that ends nothing, and text is kept for the result. -/
theorem Inv.noted {s : State} {step : Step} {valueText : Cell → Text} (h : Inv s)
    (hevaluated : step.evaluated? = none) (hfailed : step.isFailed = false)
    (hinterrupted : step ≠ .interrupted)
    (hvalue : ∀ c, s.cell = some c → c.silent = false → c.valueText = lastPrinted c.count c.trace →
      valueText c = lastPrinted c.count (c.trace ++ [step])) :
    Inv (s.modifyCell fun c =>
      { c with valueText := valueText c, trace := c.trace ++ [step] }) := by
  refine h.modifyCell s.interruptRequested fun c₀ hc₀ hkept hplaced => ?_
  have hfails : fails (c₀.trace ++ [step]) = fails c₀.trace := by simp [hfailed]
  refine ⟨⟨hkept.inOrder.note _ hevaluated, (evaluated_note hevaluated).trans hkept.evaluated,
    hkept.bounded, ?_, fun hsilent => hvalue c₀ hc₀ hsilent (hkept.value hsilent), ?_, ?_,
    hkept.recorded⟩, hplaced.note _ _ _ hfailed⟩
  · rw [wasInterrupted_append, decide_eq_false hinterrupted, Bool.or_false]
    exact hkept.interrupted
  · rw [hfails]
    exact hkept.failed
  · rw [hfails]
    exact hkept.noticed

/-- Text on stdout, while R prints no value. -/
theorem Inv.writeStdout {s : State} (text : Text) (h : Inv s) (hasks : s.control ≠ .asks)
    (hprinting : s.printing = false) : Inv (writeConsole console .stdout text s) := by
  have hcode := h.books.code
  have htext : ∀ x ∈ tagged Source.code text, x.1 = Source.code := fun x hx => mem_tagged hx
  rw [writeConsole]
  simp only [hprinting, Bool.false_eq_true, if_false]
  split
  · exact h
  · split
    · -- while debugging, a line at a time
      refine h.beside fun x hx => ?_
      have htaken : x ∈ s.stdout ++ (s.debugOutput ++ tagged Source.code text) := by
        rw [List.append_assoc] at hx
        rcases List.mem_append.mp hx with hx | hx
        · exact List.mem_append_left _ hx
        · have htaken : x ∈ [] ++ (s.debugOutput ++ tagged Source.code text) := mem_takeLines x hx
          exact List.mem_append_right _ htaken
      rw [← List.append_assoc] at htaken
      rcases List.mem_append.mp htaken with hx | hx
      · exact hcode x hx
      · exact htext x hx
    · split
      · next hinTail =>
        split
        · next hcapture =>
          -- nothing else is captured
          have hnone : s.cell = none := by
            cases hcell : s.cell with
            | none => rfl
            | some c =>
              obtain ⟨-, hplaced⟩ := h.cell c hcell
              cases hcontrol : s.control with
              | asks => exact absurd hcontrol hasks
              | polling => exact absurd hcontrol hplaced.serving
              | evaluating => simp [hplaced.outside (.inl hcontrol)] at hinTail
              | reading line =>
                cases line with
                | install => exact absurd hcontrol hplaced.installed
                | reset => simp [hplaced.outside (.inr hcontrol)] at hinTail
                | recover => simp [(hplaced.recover hcontrol).2] at hcapture
                | value visible => simp [State.printing, hcontrol] at hprinting
          have hsame : s.modifyCell (fun c => { c with valueText := c.valueText ++ text }) = s := by
            cases s
            simp_all [State.modifyCell]
          rw [hsame]
          exact h
        · exact h
      · refine h.beside fun x hx => ?_
        rw [List.append_assoc] at hx
        rcases List.mem_append.mp hx with hx | hx
        · exact hcode x (List.mem_append_left _ hx)
        · rcases List.mem_append.mp hx with hx | hx
          · exact htext x hx
          · exact hcode x (List.mem_append_right _ hx)

/-- What printing a value wrote is noted; of the last value, it is kept. -/
theorem Inv.printed {s : State} {c : Cell} (text : Text) (valueText : Cell → Text) (h : Inv s)
    (hcell : s.cell = some c)
    (hvalue : c.silent = false →
      valueText c = c.valueText ++ if c.captures then text else []) :
    Inv (s.modifyCell fun c' => { c' with
      valueText := valueText c', trace := c'.trace ++ [.printed (c'.next - 1) text] }) := by
  obtain ⟨hkept, hplaced⟩ := h.cell c hcell
  have hnext : c.next - 1 + 1 = c.next := by
    have hturns := hplaced.turns
    split at hturns <;> omega
  have hsame : (s.modifyCell fun c' => { c' with
        valueText := valueText c', trace := c'.trace ++ [.printed (c'.next - 1) text] }) =
      s.modifyCell fun c' => { c' with
        valueText := valueText c', trace := c'.trace ++ [.printed (c.next - 1) text] } := by
    simp [State.modifyCell, hcell]
  rw [hsame]
  refine h.noted rfl rfl (by simp) fun c' hc' hloud hkeeps => ?_
  obtain rfl : c = c' := Option.some.inj (hcell.symm.trans hc')
  have hlast : (Step.printed (c.next - 1) text).lastText c.count =
      if c.captures then text else [] := by
    simp [Step.lastText, hnext, Cell.captures, hloud]
  rw [lastPrinted_append, hlast, ← hkeeps]
  exact hvalue hloud

theorem noteWrite_printing {s : State} (text : Text) (h : s.printing = true) :
    s.noteWrite .stdout text = s.modifyCell fun c =>
      { c with trace := c.trace ++ [.printed (c.next - 1) text] } :=
  if_pos (by rw [h]; rfl)

/-- Text on stdout, while R prints a value: it is kept for the result, or dropped. -/
theorem Inv.printStdout {s : State} (text : Text) (h : Inv s) (hprinting : s.printing = true)
    (hsound : Event.revealed s (.write .stdout text) = false) :
    Inv ((writeConsole console .stdout text s).noteWrite .stdout text) := by
  obtain ⟨c, hcell⟩ := h.exists_cell (.inr hprinting)
  obtain ⟨htail, hcapture⟩ := (h.cell c hcell).2.tail hprinting
  have hsilent : s.silent = c.silent := by simp [State.silent, hcell]
  cases hloud : c.silent with
  | true =>
    have hquiet : writeConsole console .stdout text s = s := by
      simp [writeConsole, hsilent, hloud]
    rw [hquiet, noteWrite_printing text hprinting]
    exact h.printed text Cell.valueText hcell
      fun hfalse => by simp [hloud] at hfalse
  | false =>
    cases hcaptures : c.captures with
    | true =>
      have hkeeps : writeConsole console .stdout text s =
          s.modifyCell fun c' => { c' with valueText := c'.valueText ++ text } := by
        simp [writeConsole, hsilent, hloud, htail, hcapture, hcaptures]
      have hprints : (s.modifyCell fun c' =>
          { c' with valueText := c'.valueText ++ text }).printing = true := hprinting
      rw [hkeeps, noteWrite_printing text hprints]
      have hboth := h.printed text (fun c' => c'.valueText ++ text) hcell
        fun _ => by rw [if_pos hcaptures]
      simpa [State.modifyCell, hcell] using hboth
    | false =>
      have hdropped : c.valueText = c.valueText ++ if c.captures then text else [] := by
        rw [if_neg (by simp [hcaptures]), List.append_nil]
      cases hdebugging : s.debugging with
      | true =>
        have hempty : text = [] := by
          simpa [Event.revealed, hprinting, hdebugging, hcapture, hcaptures, hsilent, hloud]
            using hsound
        subst hempty
        -- only what waited in `debugOutput` goes out
        have hlines : writeConsole console .stdout [] s = { s with
            stdout := s.stdout ++ (takeLines console.consoleLine [] s.debugOutput).1
            debugOutput := (takeLines console.consoleLine [] s.debugOutput).2 } := by
          simp [writeConsole, hsilent, hloud, hcapture, hcaptures, hdebugging, tagged]
        have hwritten : Inv (writeConsole console .stdout [] s) := by
          rw [hlines]
          refine h.beside fun x hx => ?_
          rw [List.append_assoc] at hx
          rcases List.mem_append.mp hx with hx | hx
          · exact h.books.code x (List.mem_append_left _ hx)
          · exact h.books.code x (List.mem_append_right _ (by simpa using mem_takeLines x hx))
        have hprinting' : (writeConsole console .stdout [] s).printing = true := by
          rw [hlines]
          exact hprinting
        have hcell' : (writeConsole console .stdout [] s).cell = some c := by
          rw [hlines]
          exact hcell
        rw [noteWrite_printing [] hprinting']
        exact hwritten.printed [] Cell.valueText hcell' fun _ => hdropped
      | false =>
        have hdrops : writeConsole console .stdout text s = s := by
          simp [writeConsole, hsilent, hloud, htail, hcapture, hcaptures, hdebugging]
        rw [hdrops, noteWrite_printing text hprinting]
        exact h.printed text Cell.valueText hcell fun _ => hdropped

theorem Inv.stderr {s : State} (text : Text) (h : Inv s) :
    Inv ((writeConsole console .stderr text s).noteWrite .stderr text) := by
  have hnote (t : State) : t.noteWrite .stderr text = t := if_neg (by simp)
  rw [hnote, writeConsole]
  split
  · exact h
  · exact h.beside h.books.code

theorem Inv.interrupt {s : State} (h : Inv s) :
    Inv ({ s with interruptRequested := true }.note .interrupted) := by
  refine h.modifyCell true fun c₀ _ hkept hplaced => ?_
  have hfails : fails (c₀.trace ++ [.interrupted]) = fails c₀.trace := by simp [Step.isFailed]
  refine ⟨⟨hkept.inOrder.note _ rfl, (evaluated_note rfl).trans hkept.evaluated,
    hkept.bounded, ?_, fun hsilent => ?_, ?_, fun _ => .inr (.inr rfl), hkept.recorded⟩,
    hplaced.note _ _ _ rfl⟩
  · show wasInterrupted (c₀.trace ++ [.interrupted]) = true
    simp
  · simpa [Step.lastText] using hkept.value hsilent
  · rw [hfails]
    exact hkept.failed

/-! ## Every run -/

theorem writeConsole_printing (otype : Otype) (text : Text) (s : State) :
    (writeConsole console otype text s).printing = s.printing := by
  have hsame {t : State} (ht : t.control = s.control) : t.printing = s.printing := by
    rw [State.printing, State.printing, ht]
  apply hsame
  cases otype with
  | stderr =>
    rw [writeConsole]
    split <;> rfl
  | stdout =>
    rw [writeConsole]
    split
    · rfl
    · split
      · rfl
      · split
        · split <;> rfl
        · rfl

theorem Inv.write {s : State} (otype : Otype) (text : Text) (h : Inv s)
    (hasks : s.control ≠ .asks) (hsound : Event.revealed s (.write otype text) = false) :
    Inv ((writeConsole console otype text s).noteWrite otype text) := by
  cases otype with
  | stderr => exact h.stderr console text
  | stdout =>
    cases hprinting : s.printing with
    | true => exact h.printStdout console text hprinting hsound
    | false =>
      have hnote : (writeConsole console .stdout text s).noteWrite .stdout text =
          writeConsole console .stdout text s := by
        refine if_neg ?_
        rw [writeConsole_printing, hprinting]
        exact Bool.false_ne_true
      rw [hnote]
      exact h.writeStdout console text hasks hprinting

theorem Inv.step {s : State} {e : Event} (h : Inv s) (hsound : sound s e = true) :
    Inv (step console s e) := by
  obtain ⟨hunnoticed, hrevealed⟩ : e.unnoticed s = false ∧ e.revealed s = false := by
    simpa [sound] using hsound
  cases e with
  | ask =>
    rw [CellRunner.step]
    split
    · next hasks => exact h.ask console hasks
    · exact h
  | execute count silent =>
    rw [CellRunner.step]
    split
    · next hpolling => exact h.execute count silent hpolling
    · exact h
  | value visible =>
    rw [CellRunner.step]
    split
    · next c hcontrol hcell => exact h.value console visible hcontrol hcell
    · exact h
  | done =>
    rw [CellRunner.step]
    split
    · next line hreading => exact h.done hreading
    · exact h
  | recorded evalue traceback => exact h.recorded console evalue traceback
  | unrecorded errorBuf =>
    refine (h.beside h.books.code).unrecorded fun hprinting => ?_
    have hprinting : s.printing = true := hprinting
    simpa [Event.unnoticed, hprinting] using hunnoticed
  | write otype text =>
    rw [CellRunner.step]
    split
    · exact h
    · next hasks => exact h.write console otype text hasks hrevealed
  | browse =>
    rw [CellRunner.step]
    split
    · exact h.beside h.books.code
    · exact h.beside h.books.code
    · exact h
  | interrupt => exact h.interrupt
  | debugger started => exact h.beside h.books.code

theorem inv_init : Inv {} where
  books := ⟨by simp, rfl, by simp, by simp⟩
  cell c hc := by cases hc
  idle _ := ⟨rfl, rfl, .inl rfl⟩
  started := .inr rfl

/-- **R's console runs every cell right**, in every run in which printing a value does not fail
unseen, and in which a debugger is not attached while the value of an expression before the last is
printed. -/
theorem cells_run_right {s : State}
    (h : ((system console).when fun s e => sound s e = true).Reachable s) : RunsRight s := by
  have hinv : Inv s :=
    Transition.System.invariant_ofFn inv_init (fun _ _ hs hsound => hs.step console hsound) h
  refine ⟨hinv.books.finished, fun c hc => ?_, hinv.books.oneReply,
    fun x hx => hinv.books.code x (List.mem_append_left _ hx), hinv.books.ownLine⟩
  obtain ⟨hkept, hplaced⟩ := hinv.cell c hc
  refine ⟨hkept.inOrder, ?_⟩
  have hturns := hplaced.turns
  have hbounded := hkept.bounded
  split at hturns <;> omega

/-- R's own buffer, and a debugger that takes no line. -/
def rConsole : Console where
  length := 4096
  fits line := by
    cases line with
    | value visible => cases visible <;> decide
    | install | recover | reset => decide
  consoleLine _ := false

/-- R's first turn; a cell whose first value is printed for nothing, and whose second is the
result; and one that is interrupted. -/
def twoCells : List Event :=
  [.ask, .done, .ask, .execute 2 false, .value true, .write .stdout ['1', '\n'], .done, .ask,
    .write .stdout ['!'], .value true, .write .stdout ['2', '\n'], .done, .ask,
    .execute 1 false, .interrupt, .unrecorded [], .ask, .done, .ask]

theorem cells_run_right_twoCells : RunsRight (twoCells.foldl (step rConsole) {}) :=
  cells_run_right rConsole (Transition.System.reachable_of_allSteps (by decide +kernel))

/-- What is left of a cell whose first value could not be printed, which R handled itself. -/
def overlooked : Finished where
  number := 1
  count := 2
  silent := false
  trace := [.evaluated 0, .failed 0, .evaluated 1, .printed 1 ['2', '\n']]
  turns := 2
  reply := .ok
  result := some ['2']

/-- The cell goes on, and succeeds; and while debugging, the value of its first expression is
shown. -/
theorem failed_print_overlooked :
    (∃ s, (system rConsole).Reachable s ∧ overlooked ∈ s.finished ∧ ¬RunsRight s) ∧
    ∃ s, (system rConsole).Reachable s ∧ s.stdout = [(.value, '1'), (.value, '\n')] ∧
      ¬RunsRight s := by
  refine ⟨⟨_, Transition.System.reachable_foldl _ _ [.ask, .done, .ask, .execute 2 false,
      .value true, .unrecorded [], .ask, .value true, .write .stdout ['2', '\n'], .done, .ask],
      by decide +kernel, fun h => ?_⟩,
    ⟨_, Transition.System.reachable_foldl _ _ [.ask, .done, .ask, .debugger true,
      .execute 2 false, .value true, .write .stdout ['1', '\n']], by decide +kernel, fun h => ?_⟩⟩
  · have hreply := (h.finished overlooked (by decide +kernel)).reply
    cases hreply
  · have hhidden := h.hidden (.value, '1') (by decide +kernel)
    cases hhidden

end Jovian.CellRunner
